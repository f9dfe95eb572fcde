import KeyedLocks.Scenario.Task
import KeyedLocks.System

/-!
# The bench a scenario is carried out on

A `Bench` is a system of threads with the names given so far and the jobs under way. Workers are the
threads with their numbers, the conductor is the thread after them. A job says what to do when the
call of its thread returns: answer, store something under a name, or make the next call.

`settle` lets every thread act until each is idle or asleep. `await` also lets time pass for the
waits that end soon; a wait of a minute or longer ends only through other threads.
-/

namespace KeyedLocks.Scenario

/-- What a job does when its call returns. -/
inductive Progress where
  /-- The outcome is the answer. -/
  | outcome
  /-- The answer is known already. -/
  | answer (a : Answer)
  /-- Store what was made or obtained under a name. -/
  | store (slot : Slot)
  /-- Store a further reference under a name. -/
  | bind (slot : Slot) (o : Object)
  /-- Obtain a lock again until there are so many handles more; those there are, latest first. -/
  | climb (table : TableId) (identifier : String) (more : Nat) (handles : List Handle)
  /-- Release the handles one by one: those still to do, the one under way first, and what is
known of those that are done, latest first. -/
  | descend (todo handles : List Handle) (held after : List Bool)
  /-- Give up the references of handles, then answer. -/
  | dismiss (handles : List Handle) (a : Answer)

structure Job where
  step : Nat
  progress : Progress

/-- How something goes on: with a call and a job for it, or with its answer. -/
inductive Course where
  | call (c : Call) (p : Progress)
  | answer (a : Answer)

structure Bench where
  workers : Nat
  system : System := {}
  slots : List (Slot × Object) := []
  jobs : List (ThreadId × Job) := []
  /-- The identifiers to report on. -/
  watched : List String := []
  endings : List Ending := []
  /-- The events of a step, latest first. -/
  events : List (ThreadId × Event) := []

namespace Bench

def conductor (b : Bench) : ThreadId := b.workers

def threads (b : Bench) : List ThreadId := List.range (b.workers + 1)

def memory (b : Bench) : Memory := b.system.memory

def find? (b : Bench) (slot : Slot) : Option Object := b.slots.lookup slot

def table? (b : Bench) (f : String) : Option TableId :=
  match b.find? (.factory f) with
  | some (.table t) => some t
  | _ => none

def handle? (b : Bench) (slot : Slot) : Option Handle :=
  match b.find? slot with
  | some (.handle h) | some (.guard h) => some h
  | _ => none

def lock? (b : Bench) (slot : Slot) : Option LockId :=
  match b.find? slot with
  | some (.lock l) => some l
  | _ => none

def erase (b : Bench) (slot : Slot) : Bench := { b with slots := b.slots.filter (·.1 ≠ slot) }

/-- Give a name; what had it before is given up by the same thread, then comes the answer. -/
def put (b : Bench) (slot : Slot) (o : Object) (a : Answer) : Bench × Course :=
  let b' := { b.erase slot with slots := (slot, o) :: (b.erase slot).slots }
  match (b.find? slot).bind Object.farewell with
  | some c => (b', .call c (.answer a))
  | none => (b', .answer a)

/-- Give up a name and what it stood for. -/
def dismiss (b : Bench) (slot : Slot) (o : Object) : Bench × Course :=
  match o.farewell with
  | some c => (b.erase slot, .call c (.answer .ok))
  | none => (b.erase slot, .answer .ok)

def identifierOf (b : Bench) (h : Handle) : String := (b.memory.lock h.lock).identifier

def isHeld (b : Bench) (me : ThreadId) (h : Handle) : Bool :=
  (b.memory.lock h.lock).mutex.isHeldBy me

def lockState (b : Bench) (me : ThreadId) (l : LockId) (isEntry : Bool) : LockState :=
  let k := b.memory.lock l
  { owner := k.mutex.owner
    holds := k.mutex.holdsOf me
    waiting := k.mutex.waiters
    mine := k.mutex.isHeldBy me
    entry := if isEntry then some (k.identifier, k.closed) else none }

/-- The object of a slot that a call made. -/
def made? : Slot → Outcome → Option Object
  | _, .tableMade t => some (.table t)
  | _, .lockMade l => some (.lock l)
  | .guard .., .obtained h => some (.guard h)
  | _, .obtained h => some (.handle h)
  | _, _ => none

/-- Give up the references of handles one after the other. -/
def dismissal (handles : List Handle) (a : Answer) : Course :=
  match handles with
  | [] => .answer a
  | h :: hs => .call (.act (.forgo h.table)) (.dismiss hs a)

/-- How the job of `me` goes on after the outcome of its call. -/
def resume (b : Bench) (me : ThreadId) (o : Outcome) : Progress → Bench × Course
  | .outcome => (b, .answer (.ofOutcome o))
  | .answer a => (b, .answer a)
  | .store slot =>
    match made? slot o with
    | none => (b, .answer (.ofOutcome o))
    | some object =>
      let a := match o with
        | .obtained h => Answer.locked (b.identifierOf h)
        | _ => .ok
      b.put slot object a
  | .bind slot object => b.put slot object .ok
  | .climb t identifier more handles =>
    match o with
    | .obtained h =>
      match more with
      | n + 1 => (b, .call (.obtain t identifier) (.climb t identifier n (h :: handles)))
      | 0 =>
        let handles := (h :: handles).reverse
        (b, .call (.release (handles.headD h))
          (.descend handles handles (handles.map (b.isHeld me)) []))
    | o => (b, dismissal handles (.ofOutcome o))
  | .descend todo handles held after =>
    match o, todo with
    | .released, h :: todo =>
      let after := b.isHeld me h :: after
      match todo with
      | next :: _ => (b, .call (.release next) (.descend todo handles held after))
      | [] => (b, dismissal handles (.heldWithin held after.reverse))
    | o, _ => (b, dismissal handles (.ofOutcome o))
  | .dismiss handles a => (b, dismissal handles a)

/-- How a command starts. -/
def command (b : Bench) : Command → Bench × Course
  | .factory f source =>
    match source.policy with
    | .error e => (b, .answer (.policyError e))
    | .ok p => (b, .call (.act (.makeTable p (source = .unlimited))) (.store (.factory f)))
  | .cloneFactory f other =>
    match b.table? f with
    | none => (b, .answer .noObject)
    | some t => (b, .call (.act (.retain t)) (.bind (.factory other) (.table t)))
  | .dropFactory f =>
    match b.table? f with
    | none => (b, .answer .noObject)
    | some t => b.dismiss (.factory f) (.table t)
  | .liveFactories => (b, .answer (.number b.memory.liveCount))
  | .activeLocks f => (b, .answer <|
    match b.table? f with
    | none => .noObject
    | some t => .number (b.memory.activeLocks t))
  | .isLocked f identifier => (b, .answer <|
    match b.table? f with
    | none => .noObject
    | some t => .truth (b.memory.isLocked t identifier))
  | .queueLength f identifier => (b, .answer <|
    match b.table? f with
    | none => .noObject
    | some t => .number (b.memory.queueLength t identifier))
  | .factoryPolicy f => (b, .answer <|
    match b.table? f with
    | none => .noObject
    | some t => .policy (b.memory.table t).policy)
  | .cloneHandle h other =>
    match b.handle? (.handle h) with
    | none => (b, .answer .noObject)
    | some x => (b, .call (.act (.retain x.table)) (.bind (.handle other) (.handle x)))
  | .dropHandle h =>
    match b.handle? (.handle h) with
    | none => (b, .answer .noObject)
    | some x => b.dismiss (.handle h) (.handle x)
  | .interrupt target =>
    if target < b.workers then (b, .call (.interrupt target) (.answer .ok))
    else (b, .answer .noObject)
  | .isInterrupted target =>
    (b, .answer (if target < b.workers then .truth (b.memory.isInterrupted target) else .noObject))
  | .clearInterruptFor target =>
    if target < b.workers then (b, .call (.act (.clearInterrupt target)) .outcome)
    else (b, .answer .noObject)
  | .newMutex m => (b, .call (.act (.makeLock "")) (.store (.mutex m)))
  | .newEntry e identifier => (b, .call (.act (.makeLock identifier)) (.store (.entry e)))
  | .grabEntry e identifier =>
    match b.memory.liveTables.filterMap fun t => (b.memory.table t).find? identifier with
    | [l] => b.put (.entry e) (.lock l) .ok
    | ls => (b, .answer (.found ls.length))
  | .closeEntry e =>
    match b.lock? (.entry e) with
    | none => (b, .answer .noObject)
    | some l => (b, .call (.act (.close l)) (.answer .ok))
  | .sameEntry e other => (b, .answer <|
    match b.lock? (.entry e), b.lock? (.entry other) with
    | some l, some l' => .truth (l = l')
    | _, _ => .noObject)
  | .wake slot =>
    match b.lock? slot with
    | none => (b, .answer .noObject)
    | some l => (b, .call (.act (.wake l)) (.answer .ok))
  | .settle => (b, .answer .ok)

/-- A call on a lock that has a name. -/
def onLock (b : Bench) (slot : Slot) (f : LockId → Course) : Bench × Course :=
  match b.lock? slot with
  | none => (b, .answer .noObject)
  | some l => (b, f l)

/-- How a task of worker `me` starts. -/
def task (b : Bench) (me : ThreadId) : Task → Bench × Course
  | .obtain f identifier h =>
    match b.table? f with
    | none => (b, .answer .noObject)
    | some t => (b, .call (.obtain t identifier) (.store (.handle h)))
  | .guard f identifier g =>
    match b.table? f with
    | none => (b, .answer .noObject)
    | some t => (b, .call (.obtain t identifier) (.store (.guard me g)))
  | .intoGuard h g =>
    match b.handle? (.handle h) with
    | none => (b, .answer .noObject)
    | some x => (b.erase (.handle h)).put (.guard me g) (.guard x) .ok
  | .dropGuard g =>
    match b.handle? (.guard me g) with
    | none => (b, .answer .noObject)
    | some x => b.dismiss (.guard me g) (.guard x)
  | .guardState g => (b, .answer <|
    match b.handle? (.guard me g) with
    | none => .noObject
    | some x => .held (b.identifierOf x) (b.isHeld me x))
  | .handleState h => (b, .answer <|
    match b.handle? (.handle h) with
    | none => .noObject
    | some x => .held (b.identifierOf x) (b.isHeld me x))
  | .within f identifier depth =>
    match b.table? f, depth with
    | none, _ => (b, .answer .noObject)
    | some _, 0 => (b, .answer (.heldWithin [] []))
    | some t, n + 1 => (b, .call (.obtain t identifier) (.climb t identifier n []))
  | .release h =>
    match b.handle? (.handle h) with
    | none => (b, .answer .noObject)
    | some x => (b, .call (.release x) .outcome)
  | .clearInterrupt => (b, .call (.act (.clearInterrupt me)) .outcome)
  | .tryLock m => b.onLock (.mutex m) fun l => .call (.act (.tryLock l)) .outcome
  | .tryLockFor m millis => b.onLock (.mutex m) fun l =>
    .call (.lockFor l (millis.elim .longest .ofMillis)) .outcome
  | .unlock m => b.onLock (.mutex m) fun l => .call (.unlock l) .outcome
  | .mutexState m => b.onLock (.mutex m) fun l => .answer (.lockState (b.lockState me l false))
  | .entryLock e source => b.onLock (.entry e) fun l =>
    match source.policy with
    | .error e => .answer (.policyError e)
    | .ok p => .call (.take l p) .outcome
  | .entryUnlock e => b.onLock (.entry e) fun l => .call (.give l) .outcome
  | .entryState e => b.onLock (.entry e) fun l => .answer (.lockState (b.lockState me l true))
  | .checkDeadlock e => b.onLock (.entry e) fun l => .call (.checkDeadlock l) .outcome

/-! ## Threads at work -/

def job? (b : Bench) (t : ThreadId) : Option Job := b.jobs.lookup t

def dropJob (b : Bench) (t : ThreadId) : Bench := { b with jobs := b.jobs.filter (·.1 ≠ t) }

/-- Let the job of thread `t`, which started with step `step`, take its course. -/
def follow (b : Bench) (t : ThreadId) (step : Nat) : Course → Bench
  | .answer a =>
    { b.dropJob t with endings := b.endings ++ [{ worker := t, step, answer := a }] }
  | .call c progress =>
    match b.system.call t c with
    | none => b
    | some system =>
      { b.dropJob t with system, jobs := (t, { step, progress }) :: (b.dropJob t).jobs }

def takeNote (b : Bench) (t : ThreadId) : Note → Bench
  | .called _ => b
  | .event e => { b with events := (t, e) :: b.events }
  | .returned o =>
    match b.job? t with
    | none => b
    | some job =>
      let (b, course) := b.resume t o job.progress
      b.follow t job.step course

/-- One action of a thread, and what follows from it. -/
def act (b : Bench) (t : ThreadId) : Option Bench :=
  (b.system.act t).map fun (system, notes) =>
    notes.foldl (fun b n => b.takeNote t n) { b with system }

/-- Let a thread act until it is idle or held up. -/
def runThread : Nat → Bench → ThreadId → Bench
  | 0, b, _ => b
  | fuel + 1, b, t =>
    match b.act t with
    | none => b
    | some b => runThread fuel b t

def canAct (b : Bench) (t : ThreadId) : Bool := (b.system.act t).isSome

/-- Let all threads act until each is idle or held up. -/
def settle : Nat → Bench → Bench
  | 0, b => b
  | fuel + 1, b =>
    if b.threads.any b.canAct then settle fuel (b.threads.foldl (runThread fuel) b) else b

/-- A wait of so many nanoseconds is not waited out. -/
def patience : Nat := 60 * nanosPerSecond

/-- Let time pass to the first deadline there is, not later than `limit`. -/
def elapse (b : Bench) (limit : Nat) : Bench :=
  let deadlines := (b.threads.filterMap b.system.deadline?).filter (b.system.now < ·)
  { b with system := b.system.passTo b.threads (deadlines.foldl min limit) }

/-- Let threads act and time pass until the job of `t` is over or would not end soon. -/
def await (fuel : Nat) : Nat → Bench → ThreadId → Bench
  | 0, b, _ => b
  | rounds + 1, b, t =>
    let b := b.settle fuel
    if (b.job? t).isNone then b
    else
      match b.system.deadline? t with
      | none => b
      | some d => if d < b.system.now + patience then await fuel rounds (b.elapse d) t else b

end Bench

end KeyedLocks.Scenario
