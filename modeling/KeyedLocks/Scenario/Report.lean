import KeyedLocks.Scenario.Bench

/-!
# Reports of a scenario

`run` carries out the steps of a scenario and reports on each: its answer, the operations of earlier
steps that ended meanwhile, the log events, and the state of the factories after it.
-/

namespace KeyedLocks.Scenario

namespace Bench

/-- No step needs so many actions or rounds. -/
def fuel : Nat := 1000000000

/-- What is reported on a factory. -/
def factoryState (b : Bench) (name : String) (t : TableId) : FactoryState :=
  let look (identifier : String) : Option (String × Bool × Nat) :=
    let locked := b.memory.isLocked t identifier
    let queued := b.memory.queueLength t identifier
    if locked || queued != 0 then some (identifier, locked, queued) else none
  { name, active := b.memory.activeLocks t, locks := b.watched.filterMap look }

def factories (b : Bench) : List FactoryState :=
  b.slots.filterMap fun
    | (.factory name, .table t) => some (b.factoryState name t)
    | _ => none

/-- Why a worker cannot take a step: there is no such worker, or it is still at work. -/
def refusal? (b : Bench) (worker : Nat) : Option Answer :=
  if b.workers ≤ worker then some .noObject
  else if (b.job? worker).isSome then some .busy
  else none

/-- The thread a step belongs to, and how it starts there. -/
def start (b : Bench) : Deed → Bench × ThreadId × Course
  | .command c =>
    let (b', course) := b.command c
    (b', b.conductor, course)
  | .task worker t =>
    match b.refusal? worker with
    | some a => (b, b.conductor, .answer a)
    | none =>
      let (b', course) := b.task worker t
      (b', worker, course)
  | .unknown worker => (b, b.conductor, .answer ((b.refusal? worker).getD .noObject))

def watch (b : Bench) : Option String → Bench
  | none => b
  | some identifier =>
    if identifier ∈ b.watched then b else { b with watched := b.watched ++ [identifier] }

/-- Events of the conductor first, then by worker. -/
def orderedEvents (b : Bench) : List (Option ThreadId × Event) :=
  let own (t : ThreadId) := (b.events.filter (·.1 = t)).reverse
  (own b.conductor).map (fun e => (none, e.2)) ++
    (List.range b.workers).flatMap fun t => (own t).map fun e => (some t, e.2)

/-- Carry out step number `index`. -/
def step (b : Bench) (index : Nat) (s : Step) : Bench × Report :=
  let b := { b.watch s.identifier with endings := [], events := [] }
  let before := b.system.now
  let (b, thread, course) := b.start s.deed
  let b := b.follow thread index course
  let b := if s.async then b.settle fuel else b.await fuel fuel thread
  let own := b.endings.find? (·.step = index)
  let others := (b.endings.filter (·.step ≠ index)).mergeSort (·.worker ≤ ·.worker)
  let report :=
    { answer := (own.map (·.answer)).getD .blocked
      waited := s.minMillis.map fun ms => before + ms * 1000000 ≤ b.system.now
      factories := b.factories
      endings := others
      events := b.orderedEvents }
  (b, report)

/-- The reports on steps, the first of which has the number `index`, and the bench after them. -/
def run (b : Bench) (index : Nat) : List Step → Bench × List Report
  | [] => (b, [])
  | s :: steps =>
    let (b, report) := b.step index s
    let (b, reports) := b.run (index + 1) steps
    (b, report :: reports)

/-- The workers whose operation is not over. -/
def unfinished (b : Bench) : List ThreadId :=
  (List.range b.workers).filter fun t => (b.job? t).isSome

end Bench

/-- The reports on all steps, and the workers that still wait in the end. There are none if one of
the answers was fatal. -/
def run (workers : Nat) (steps : List Step) : Option (List Report × List ThreadId) :=
  let (b, reports) := Bench.run { workers } 0 steps
  if reports.any (·.answer.isFatal) then none else some (reports, b.unfinished)

end KeyedLocks.Scenario
