import KeyedLocks.Phase
import KeyedLocks.Policy.File

/-!
# Scenarios

A scenario has workers, numbered from zero, and steps that are carried out one after another. Some
steps belong to a worker, the others to the conductor. Steps speak of factories, handles, mutexes,
entries and guards by name; a guard's name belongs to its worker. An `Answer` is what a step gives.
-/

namespace KeyedLocks.Scenario

/-- A name and what kind of thing it names. -/
inductive Slot where
  | factory (name : String)
  | handle (name : String)
  | guard (worker : ThreadId) (name : String)
  | mutex (name : String)
  | entry (name : String)
deriving Repr, DecidableEq

/-- What a name stands for. -/
inductive Object where
  | table (t : TableId)
  | handle (h : Handle)
  | guard (h : Handle)
  | lock (l : LockId)
deriving Repr, DecidableEq

/-- The call that follows when a name is given up: a reference to a table goes away, a guard gives
back its hold. -/
def Object.farewell : Object → Option Call
  | table t => some (.act (.forgo t))
  | handle h => some (.act (.forgo h.table))
  | guard h => some (.dropGuard h)
  | lock _ => none

/-- How a step writes a policy. -/
inductive PolicySource where
  | numbers (attempts queued spinMillis : Int64)
  | text (toml : String)
  | unlimited
deriving Repr, DecidableEq

def PolicySource.policy : PolicySource → Except PolicyError Policy
  | numbers a q s => (Policy.ofNumbers a q s).mapError .limit
  | text toml => Policy.read toml
  | unlimited => .ok .unbounded

/-- Steps of the conductor. -/
inductive Command where
  | factory (f : String) (policy : PolicySource)
  | cloneFactory (f other : String)
  | dropFactory (f : String)
  | liveFactories
  | activeLocks (f : String)
  | isLocked (f identifier : String)
  | queueLength (f identifier : String)
  | factoryPolicy (f : String)
  | cloneHandle (h other : String)
  | dropHandle (h : String)
  | interrupt (target : Nat)
  | isInterrupted (target : Nat)
  | clearInterruptFor (target : Nat)
  | newMutex (m : String)
  | newEntry (e identifier : String)
  /-- Name the entry that is registered under an identifier, if just one live factory has one. -/
  | grabEntry (e identifier : String)
  | closeEntry (e : String)
  | sameEntry (e other : String)
  | wake (lock : Slot)
  | settle
deriving Repr, DecidableEq

/-- Steps of a worker. -/
inductive Task where
  | obtain (f identifier h : String)
  | guard (f identifier g : String)
  | intoGuard (h g : String)
  | dropGuard (g : String)
  | guardState (g : String)
  | handleState (h : String)
  /-- Obtain a lock so many times, then give it back as often. -/
  | within (f identifier : String) (depth : Nat)
  | release (h : String)
  | clearInterrupt
  | tryLock (m : String)
  | tryLockFor (m : String) (millis : Option UInt64)
  | unlock (m : String)
  | mutexState (m : String)
  | entryLock (e : String) (policy : PolicySource)
  | entryUnlock (e : String)
  | entryState (e : String)
  | checkDeadlock (e : String)
deriving Repr, DecidableEq

inductive Deed where
  | command (c : Command)
  | task (worker : Nat) (t : Task)
  /-- A step of a kind that does not exist, left to a worker. -/
  | unknown (worker : Nat)
deriving Repr, DecidableEq

structure Step where
  deed : Deed
  /-- Do not wait for the operation to end. -/
  async : Bool := false
  /-- An identifier to report on from now on. -/
  identifier : Option String := none
  /-- Ask whether the step took so long at least. -/
  minMillis : Option Nat := none
deriving Repr, DecidableEq

/-- A look at a lock by one worker. -/
structure LockState where
  owner : Option ThreadId
  /-- The holds of the worker that looks. -/
  holds : Nat
  waiting : List ThreadId
  mine : Bool
  /-- For an entry, its identifier and whether it is closed. -/
  entry : Option (String × Bool)
deriving Repr, DecidableEq

inductive Answer where
  | ok
  | truth (b : Bool)
  | number (n : Nat)
  | locked (identifier : String)
  | lockError (e : LockError)
  | policyError (e : PolicyError)
  | policy (p : Policy)
  | held (identifier : String) (held : Bool)
  | lockState (s : LockState)
  /-- Whether each handle was held when all were obtained, and after its release. -/
  | heldWithin (held after : List Bool)
  | waited (r : WaitResult)
  | notOwner
  | live
  | closed
  | found (count : Nat)
  | blocked
  | busy
  | noObject

/-- Whether the scenario cannot go on after this answer. -/
def Answer.isFatal : Answer → Bool
  | policyError e => e.isFatal
  | _ => false

/-- The answer of a call whose outcome is all there is to say. -/
def Answer.ofOutcome : Outcome → Answer
  | .refused e => lockError e
  | .live => live
  | .closed => closed
  | .tried b => truth b
  | .waited r => waited r
  | .notOwner => notOwner
  | .cleared b => truth b
  | .obtained _ | .released | .tableMade _ | .lockMade _ | .done => ok

/-- What a factory holds: the number of its entries, and for the identifiers of interest whether
they are locked and how many threads wait. -/
structure FactoryState where
  name : String
  active : Nat
  locks : List (String × Bool × Nat)
deriving Repr, DecidableEq

/-- The end of an operation that an earlier step started. -/
structure Ending where
  worker : ThreadId
  step : Nat
  answer : Answer

structure Report where
  answer : Answer
  /-- Whether the step took as long as it asked. -/
  waited : Option Bool
  factories : List FactoryState
  endings : List Ending
  /-- Events with their worker, none for the conductor. -/
  events : List (Option ThreadId × Event)

end KeyedLocks.Scenario
