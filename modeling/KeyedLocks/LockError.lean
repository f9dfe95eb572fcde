/-!
# Why a lock was not obtained or not released
-/

namespace KeyedLocks

/-- Conditions that end an acquisition or a release without effect. -/
inductive LockError where
  | tooManyQueued (identifier : String) (queued limit : Nat)
  | attemptsExceeded (identifier : String) (attempts : Nat)
  | interrupted (identifier : String)
  | deadlock (identifier : String)
  | notHeld (identifier : String)
deriving Repr, DecidableEq

namespace LockError

/-- The identifier of the lock the condition is about. -/
def identifier : LockError → String
  | .tooManyQueued i _ _ | .attemptsExceeded i _ | .interrupted i | .deadlock i | .notHeld i => i

/-- The lock could not be had this time; the caller may come back later. -/
def isAcquisitionFailure : LockError → Bool
  | .tooManyQueued .. | .attemptsExceeded .. | .interrupted _ => true
  | .deadlock _ | .notHeld _ => false

/-- Waiting would have closed a cycle. -/
def isDeadlock : LockError → Bool
  | .deadlock _ => true
  | _ => false

/-- A thread gave back a lock it does not hold. -/
def isIllegalState : LockError → Bool
  | .notHeld _ => true
  | _ => false

def message : LockError → String
  | .tooManyQueued i queued limit =>
    s!"failed to acquire lock for identifier {i}: too many queued threads ({queued} >= {limit})"
  | .attemptsExceeded i attempts =>
    s!"failed to acquire lock for identifier {i}: maximum attempts exceeded ({attempts})"
  | .interrupted i => s!"failed to acquire lock for identifier {i}: thread was interrupted"
  | .deadlock i =>
    s!"an imminent deadlock was detected while attempting to acquire lock for identifier {i}"
  | .notHeld i => s!"lock for identifier {i} is not held by the current thread"

end LockError

end KeyedLocks
