import KeyedLocks.Event
import KeyedLocks.Memory

/-!
# What threads are about to do

A thread makes a `Call`, goes through phases, and returns an `Outcome`. A `Phase` names the next
atomic action of the thread and holds what it knows from the actions before: one look-up, one
critical section of a lock, one read or write of a mark. Between two actions of a thread, others may
act.
-/

namespace KeyedLocks

/-- A lock obtained from a table. -/
structure Handle where
  table : TableId
  lock : LockId
deriving Repr, DecidableEq

/-- An acquisition that backs off as its policy says, of a lock that a table handed out or of a lock
by itself. -/
structure Attempt where
  lock : LockId
  policy : Policy
  table : Option TableId
deriving DecidableEq

/-- What a deadlock check or a wait is part of: an acquisition with so many attempts left, or
nothing else. -/
inductive Errand where
  | attempt (a : Attempt) (left : Option Nat)
  | plain (lock : LockId)
deriving DecidableEq

def Errand.lock : Errand → LockId
  | .attempt a _ => a.lock
  | .plain l => l

inductive WaitResult where
  | acquired
  | timedOut
  | interrupted
deriving Repr, DecidableEq

/-- The actions of a wait. From `checkFlag` to the end of `doze` the thread keeps the latch. -/
inductive WaitStage where
  /-- Try the lock once more, or else join the queue. -/
  | enter
  | checkFlag
  /-- Leave if the time is over, or else fall asleep. -/
  | doze
  | asleep
deriving Repr, DecidableEq

/-- The actions of a deadlock check. It lists the live tables and their locks, then searches the
wait graph, reading one lock at a time. -/
inductive Check where
  | isLocked
  | isMine
  | listTables
  | listLocks (todo kept : List TableId) (locks : List LockId)
  | readOwner (locks : List LockId)
  | search (goal : ThreadId) (locks : List LockId) (s : Search ThreadId)
  /-- Look for the waiters of `holder` in the locks still to be read. -/
  | scan (goal : ThreadId) (locks : List LockId) (s : Search ThreadId) (holder : ThreadId)
      (todo : List LockId) (waiters : List ThreadId)
  | collect (goal : ThreadId) (locks : List LockId) (s : Search ThreadId) (holder : ThreadId)
      (lock : LockId) (todo : List LockId) (waiters : List ThreadId)
  | report
deriving Repr, DecidableEq

/-- The actions of a release: give back the hold, wake the waiters if it was the last, then probe
the lock and dispose of it if nobody holds it. -/
inductive ReleaseStage where
  | unlock
  | notify
  | probe
  | count
  | close
  | remove
  | unprobe
  | notifyProbe
deriving Repr, DecidableEq

/-- The actions of an interrupt: raise the flag, then wake the thread wherever it waits. -/
inductive InterruptStage where
  | raise
  | listTables
  | listLocks (todo : List TableId)
  | inspect (table : TableId) (locks : List LockId) (todo : List TableId)
  | wake (table : TableId) (lock : LockId) (locks : List LockId) (todo : List TableId)
deriving Repr, DecidableEq

/-- Calls that are over after one action. -/
inductive Action where
  | tryLock (lock : LockId)
  | clearInterrupt (target : ThreadId)
  | wake (lock : LockId)
  | close (lock : LockId)
  /-- Make a table; one that is meant to have no limits says so. -/
  | makeTable (policy : Policy) (unlimited : Bool)
  | makeLock (identifier : String)
  | retain (table : TableId)
  | forgo (table : TableId)
deriving DecidableEq

/-- Who gives a lock back: a caller with a handle, or a guard that goes away with its reference. -/
inductive Releaser where
  | handle
  | guard
deriving Repr, DecidableEq

inductive Phase where
  | idle
  | lookUp (table : TableId) (identifier : String)
  | insert (table : TableId) (identifier : String)
  | tryTake (a : Attempt)
  | readQueue (a : Attempt)
  | checking (e : Errand) (c : Check)
  | spend (a : Attempt) (left : Option Nat)
  | waiting (e : Errand) (deadline : Option Nat) (s : WaitStage)
  | readClosed (a : Attempt)
  /-- Give back a lock that turned out to be closed. -/
  | backOut (a : Attempt)
  | notifyBackOut (a : Attempt)
  /-- Take a closed lock out of its table and look again. -/
  | discard (a : Attempt)
  | releasing (h : Handle) (who : Releaser) (s : ReleaseStage)
  /-- Give back a hold without disposing of the lock; `named` for a lock with an identifier. -/
  | unlocking (lock : LockId) (named : Bool)
  | notifying (lock : LockId)
  | interrupting (target : ThreadId) (s : InterruptStage)
  | acting (a : Action)
deriving DecidableEq, Inhabited

/-- The operations a thread may start. -/
inductive Call where
  | obtain (table : TableId) (identifier : String)
  | release (h : Handle)
  | dropGuard (h : Handle)
  /-- Take a lock by itself, backing off as the policy says. -/
  | take (lock : LockId) (policy : Policy)
  | give (lock : LockId)
  | lockFor (lock : LockId) (timeout : Duration)
  | unlock (lock : LockId)
  | checkDeadlock (lock : LockId)
  | interrupt (target : ThreadId)
  | act (a : Action)
deriving DecidableEq

inductive Outcome where
  /-- The lock is held; the handle carries a reference to its table. -/
  | obtained (h : Handle)
  | refused (e : LockError)
  | live
  /-- The lock was closed and is not held. -/
  | closed
  | released
  | tried (taken : Bool)
  | waited (r : WaitResult)
  | notOwner
  | cleared (was : Bool)
  | tableMade (table : TableId)
  | lockMade (lock : LockId)
  | done
deriving Repr, DecidableEq

/-- What others get to see of a move: a call and its outcome, and log events in between. -/
inductive Note where
  | called (c : Call)
  | event (e : Event)
  | returned (o : Outcome)
deriving DecidableEq

end KeyedLocks
