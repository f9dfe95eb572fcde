import KeyedLocks.Phase

/-!
# Atomic actions

`Phase.next` carries out the next action of a thread: it reads and writes the shared memory and says
what the thread is about to do then. There is none (`none`) for an idle thread, for one that sleeps
with no wake-up on its way, and for one that needs a lock whose latch is held. `Call.begin` is how a
thread gets from its call to the first phase.
-/

namespace KeyedLocks

/-- What an action leaves behind. -/
structure Step where
  memory : Memory
  phase : Phase
  notes : List Note := []
deriving DecidableEq

namespace Step

def moveTo (m : Memory) (p : Phase) : Step := { memory := m, phase := p }

def finish (m : Memory) (o : Outcome) : Step :=
  { memory := m, phase := .idle, notes := [.returned o] }

/-- Log an event before everything else. -/
def emit (e : Event) (s : Step) : Step := { s with notes := .event e :: s.notes }

end Step

open Step

/-- An action inside a critical section of lock `l`, possible while the latch is free. -/
def Memory.critical {α : Type} (m : Memory) (l : LockId) (f : Lock → α) : Option α :=
  if (m.lock l).latch = none then some (f (m.lock l)) else none

/-- The moment a wait that starts at `now` has to end. There is none for a time the clock cannot
express: it counts seconds with 63 bits. -/
def deadlineAfter (now : Nat) (timeout : Duration) : Option Nat :=
  let deadline := now + timeout.nanos
  if deadline / nanosPerSecond < Int64.size / 2 then some deadline else none

/-! ## Acquisitions -/

namespace Attempt

def identifier (a : Attempt) (m : Memory) : String := (m.lock a.lock).identifier

/-- Give up, together with the reference to the table. -/
def fail (a : Attempt) (m : Memory) (e : LockError) : Step :=
  finish (m.forgoAll a.table.toList) (.refused e)

/-- Work on the entry that a look-up found. -/
def ofEntry (m : Memory) (t : TableId) (l : LockId) : Attempt :=
  { lock := l, policy := (m.table t).policy, table := some t }

def tryTake (me : ThreadId) (m : Memory) (a : Attempt) : Option Step :=
  m.critical a.lock fun k =>
    match k.mutex.take? me with
    | some x => moveTo (m.setMutex a.lock x) (.readClosed a)
    | none => moveTo m (.readQueue a)

/-- The first attempt is used up, so one less is left for waiting. -/
def readQueue (m : Memory) (a : Attempt) : Option Step :=
  m.critical a.lock fun k =>
    let queued := k.mutex.queueLength
    if a.policy.queueLimitReached queued then
      (a.fail m (.tooManyQueued k.identifier queued (a.policy.queueLimit.getD 0))).emit
        (.tooManyQueued k.identifier queued)
    else moveTo m (.checking (.attempt a (a.policy.attempts.map (· - 1))) .isLocked)

/-- Use up one of the attempts left and start to wait. -/
def spend (now : Nat) (m : Memory) (a : Attempt) (left : Option Nat) : Step :=
  if left = some 0 then
    (a.fail m (.attemptsExceeded (a.identifier m) (a.policy.attempts.getD 0))).emit
      (.attemptsExceeded (a.identifier m) a.policy.attempts)
  else
    let left := left.map (· - 1)
    (moveTo m (.waiting (.attempt a left) (deadlineAfter now a.policy.spinTime) .enter)).emit
      (.waiting (a.identifier m) left)

def readClosed (m : Memory) (a : Attempt) : Step :=
  if (m.lock a.lock).closed then moveTo m (.backOut a)
  else
    match a.table with
    | some t => finish m (.obtained ⟨t, a.lock⟩)
    | none => finish m .live

def backOut (me : ThreadId) (m : Memory) (a : Attempt) : Option Step :=
  m.critical a.lock fun k =>
    match k.mutex.release? me with
    | some x =>
      moveTo (m.setMutex a.lock x) (if x.isLocked then .discard a else .notifyBackOut a)
    | none => (moveTo m (.discard a)).emit (.closedNotHeld k.identifier)

def discard (m : Memory) (a : Attempt) : Step :=
  match a.table with
  | some t => moveTo (m.removeEntry t a.lock) (.lookUp t (a.identifier m))
  | none => finish m .closed

end Attempt

/-! ## Deadlock checks -/

/-- How a check goes on: it is not over, nothing stands against waiting, or the wait would close a
cycle through `owner`. -/
inductive Verdict where
  | more (c : Check)
  | passed
  | cycle (owner : Option ThreadId)
deriving Repr, DecidableEq

def Check.next (me : ThreadId) (m : Memory) (target : LockId) :
    Check → Option (Memory × Verdict)
  | .isLocked => m.critical target fun k =>
    (m, if k.mutex.isLocked then .more .isMine else .passed)
  | .isMine => m.critical target fun k =>
    (m, if k.mutex.isHeldBy me then .passed else .more .listTables)
  | .listTables => some (m.retainAll m.liveTables, .more (.listLocks m.liveTables m.liveTables []))
  | .listLocks (t :: todo) kept locks =>
    some (m, .more (.listLocks todo kept (locks ++ (m.table t).locks)))
  | .listLocks [] kept locks => some (m.forgoAll kept, .more (.readOwner locks))
  | .readOwner locks => m.critical target fun k =>
    (m, match k.mutex.owner with
      | none => .passed
      | some o => if o = me then .passed else .more (.search o locks (.start me)))
  | .search goal locks s => some (m, match s.pending with
      | [] => if goal ∈ s.found then .more .report else .passed
      | h :: rest => .more (.scan goal locks { s with pending := rest } h locks []))
  | .scan goal locks s _ [] waiters => some (m, .more (.search goal locks (s.absorb waiters)))
  | .scan goal locks s holder (l :: todo) waiters => m.critical l fun k =>
    (m, if k.mutex.isHeldBy holder then .more (.collect goal locks s holder l todo waiters)
      else .more (.scan goal locks s holder todo waiters))
  | .collect goal locks s holder l todo waiters => m.critical l fun k =>
    (m, .more (.scan goal locks s holder todo (waiters ++ k.mutex.waiters)))
  | .report => m.critical target fun k => (m, .cycle k.mutex.owner)

namespace Errand

/-- The references to tables an errand stands for. -/
def tables : Errand → List TableId
  | attempt a _ => a.table.toList
  | plain _ => []

/-- Go on after a step of the deadlock check. -/
def judge (e : Errand) (m : Memory) : Verdict → Step
  | .more c => moveTo m (.checking e c)
  | .passed =>
    match e with
    | attempt a left => moveTo m (.spend a left)
    | plain _ => finish m .done
  | .cycle owner =>
    let identifier := (m.lock e.lock).identifier
    (finish (m.forgoAll e.tables) (.refused (.deadlock identifier))).emit
      (.deadlock identifier owner)

/-! ## Waits -/

/-- Go on after a wait. -/
def conclude (e : Errand) (m : Memory) (r : WaitResult) : Step :=
  match e with
  | plain _ => finish m (.waited r)
  | attempt a _ =>
    match r with
    | .acquired => moveTo m (.readClosed a)
    | .timedOut => moveTo m (.checking e .isLocked)
    | .interrupted =>
      (a.fail m (.interrupted (a.identifier m))).emit (.waitInterrupted (a.identifier m))

/-- Leave the queue and give back the latch. -/
def quit (e : Errand) (me : ThreadId) (m : Memory) : Memory :=
  m.modifyLock e.lock fun k => { k with mutex := k.mutex.leave me, latch := none }

def wait (me : ThreadId) (now : Nat) (m : Memory) (e : Errand) (deadline : Option Nat) :
    WaitStage → Option Step
  | .enter => m.critical e.lock fun k =>
    match k.mutex.take? me with
    | some x => e.conclude (m.setMutex e.lock x) .acquired
    | none =>
      moveTo ((m.setMutex e.lock (k.mutex.enqueue me)).setLatch e.lock (some me))
        (.waiting e deadline .checkFlag)
  | .checkFlag =>
    if m.isInterrupted me then some (e.conclude (e.quit me (m.clearInterrupt me)) .interrupted)
    else some (moveTo m (.waiting e deadline .doze))
  | .doze =>
    if deadline.any (· ≤ now) then some (e.conclude (e.quit me m) .timedOut)
    else some (moveTo ((m.sleep e.lock me).setLatch e.lock none) (.waiting e deadline .asleep))
  | .asleep =>
    if me ∈ (m.lock e.lock).sleepers then none
    else m.critical e.lock fun k =>
      match k.mutex.take? me with
      | some x => e.conclude (m.setMutex e.lock (x.leave me)) .acquired
      | none => moveTo (m.setLatch e.lock (some me)) (.waiting e deadline .checkFlag)

end Errand

/-! ## Releases -/

namespace Releaser

/-- End a release, and with it the reference to the table. A guard has nobody to tell of an error
but the log. -/
def conclude (who : Releaser) (h : Handle) (m : Memory) (r : Except LockError Unit) : Step :=
  let m' := m.forgo h.table
  match r, who with
  | .ok _, _ => finish m' .released
  | .error e, .handle => finish m' (.refused e)
  | .error e, .guard =>
    (finish m' .released).emit (.guardNotReleased (m.lock h.lock).identifier e)

def release (me : ThreadId) (m : Memory) (h : Handle) (who : Releaser) :
    ReleaseStage → Option Step
  | .unlock => m.critical h.lock fun k =>
    match k.mutex.release? me with
    | none => who.conclude h m (.error (.notHeld k.identifier))
    | some x =>
      moveTo (m.setMutex h.lock x) (.releasing h who (if x.isLocked then .probe else .notify))
  | .notify => some (moveTo (m.notifyAll h.lock) (.releasing h who .probe))
  | .probe => m.critical h.lock fun k =>
    match k.mutex.take? me with
    | none => who.conclude h m (.ok ())
    | some x => moveTo (m.setMutex h.lock x) (.releasing h who .count)
  | .count => m.critical h.lock fun k =>
    moveTo m (.releasing h who (if k.mutex.holdsOf me = 1 then .close else .unprobe))
  | .close => some (moveTo (m.close h.lock) (.releasing h who .remove))
  | .remove =>
    let identifier := (m.lock h.lock).identifier
    let held := (m.table h.table).holds identifier h.lock
    let s := moveTo (m.removeEntry h.table h.lock) (.releasing h who .unprobe)
    some (if held then s.emit (.entryDisposed identifier) else s)
  | .unprobe => m.critical h.lock fun k =>
    match k.mutex.release? me with
    | none => (who.conclude h m (.ok ())).emit (.probeNotHeld k.identifier)
    | some x =>
      if x.isLocked then who.conclude h (m.setMutex h.lock x) (.ok ())
      else moveTo (m.setMutex h.lock x) (.releasing h who .notifyProbe)
  | .notifyProbe => some (who.conclude h (m.notifyAll h.lock) (.ok ()))

end Releaser

/-! ## Interrupts -/

/-- Wake `target` in every lock of every live table that has it in its queue. -/
def interrupt (m : Memory) (target : ThreadId) : InterruptStage → Option Step
  | .raise => some (moveTo (m.interrupt target) (.interrupting target .listTables))
  | .listTables =>
    some (moveTo (m.retainAll m.liveTables) (.interrupting target (.listLocks m.liveTables)))
  | .listLocks [] => some ((finish m .done).emit (.interruptRequested target))
  | .listLocks (t :: todo) =>
    some (moveTo m (.interrupting target (.inspect t (m.table t).locks todo)))
  | .inspect t [] todo => some (moveTo (m.forgo t) (.interrupting target (.listLocks todo)))
  | .inspect t (l :: ls) todo => m.critical l fun k =>
    moveTo m (.interrupting target
      (if target ∈ k.mutex.waiters then .wake t l ls todo else .inspect t ls todo))
  | .wake t l ls todo => m.critical l fun _ =>
    moveTo (m.notifyAll l) (.interrupting target (.inspect t ls todo))

/-! ## Everything else -/

def Action.run (me : ThreadId) (m : Memory) : Action → Option Step
  | .tryLock l => m.critical l fun k =>
    match k.mutex.take? me with
    | some x => finish (m.setMutex l x) (.tried true)
    | none => finish m (.tried false)
  | .clearInterrupt t => some (finish (m.clearInterrupt t) (.cleared (m.isInterrupted t)))
  | .wake l => m.critical l fun _ => finish (m.notifyAll l) .done
  | .close l => some (finish (m.close l) .done)
  | .makeTable policy unlimited =>
    let s := finish (m.addTable policy) (.tableMade m.tables.fresh)
    some (if unlimited then s.emit .unboundedTable else s)
  | .makeLock identifier => some (finish (m.addLock identifier) (.lockMade m.locks.fresh))
  | .retain t => some (finish (m.retain t) .done)
  | .forgo t => some (finish (m.forgo t) .done)

/-- Find the lock of an identifier, registering a new one if there is none. -/
def lookUp (m : Memory) (t : TableId) (identifier : String) : Step :=
  match (m.table t).find? identifier with
  | some l => moveTo m (.tryTake (.ofEntry m t l))
  | none => moveTo m (.insert t identifier)

def insert (m : Memory) (t : TableId) (identifier : String) : Step :=
  match (m.table t).find? identifier with
  | some l => moveTo m (.tryTake (.ofEntry m t l))
  | none =>
    (moveTo (m.addEntry t identifier) (.tryTake (.ofEntry m t m.locks.fresh))).emit
      (.entryCreated identifier)

def unlock (me : ThreadId) (m : Memory) (l : LockId) (named : Bool) : Option Step :=
  m.critical l fun k =>
    match k.mutex.release? me with
    | none => finish m (if named then .refused (.notHeld k.identifier) else .notOwner)
    | some x =>
      if x.isLocked then finish (m.setMutex l x) .released
      else moveTo (m.setMutex l x) (.notifying l)

/-- The next action of thread `me`, at the time `now`. -/
def Phase.next (me : ThreadId) (now : Nat) (m : Memory) : Phase → Option Step
  | .idle => none
  | .lookUp t identifier => some (KeyedLocks.lookUp m t identifier)
  | .insert t identifier => some (KeyedLocks.insert m t identifier)
  | .tryTake a => a.tryTake me m
  | .readQueue a => a.readQueue m
  | .checking e c => (c.next me m e.lock).map fun (m, v) => e.judge m v
  | .spend a left => some (a.spend now m left)
  | .waiting e deadline s => e.wait me now m deadline s
  | .readClosed a => some (a.readClosed m)
  | .backOut a => a.backOut me m
  | .notifyBackOut a => some (moveTo (m.notifyAll a.lock) (.discard a))
  | .discard a => some (a.discard m)
  | .releasing h who s => who.release me m h s
  | .unlocking l named => unlock me m l named
  | .notifying l => some (finish (m.notifyAll l) .released)
  | .interrupting target s => interrupt m target s
  | .acting a => a.run me m

/-- The memory and the phase a call starts with. An acquisition and a release keep the table alive
while they run; the guard that goes away gives its own reference to the release. -/
def Call.begin (now : Nat) (m : Memory) : Call → Memory × Phase
  | .obtain t identifier => (m.retain t, .lookUp t identifier)
  | .release h => (m.retain h.table, .releasing h .handle .unlock)
  | .dropGuard h => (m, .releasing h .guard .unlock)
  | .take l policy => (m, .tryTake { lock := l, policy, table := none })
  | .give l => (m, .unlocking l true)
  | .lockFor l timeout => (m, .waiting (.plain l) (deadlineAfter now timeout) .enter)
  | .unlock l => (m, .unlocking l false)
  | .checkDeadlock l => (m, .checking (.plain l) .isLocked)
  | .interrupt t => (m, .interrupting t .raise)
  | .act a => (m, .acting a)

end KeyedLocks
