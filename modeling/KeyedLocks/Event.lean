import KeyedLocks.LockError
import KeyedLocks.Mutex

/-!
# Log events

What locking has to say while it works: each event has a level, a message and fields.
-/

namespace KeyedLocks

inductive Event where
  | entryCreated (identifier : String)
  | entryDisposed (identifier : String)
  | waiting (identifier : String) (remaining : Option Nat)
  | tooManyQueued (identifier : String) (queued : Nat)
  | attemptsExceeded (identifier : String) (attempts : Option Nat)
  | waitInterrupted (identifier : String)
  | deadlock (identifier : String) (owner : Option ThreadId)
  | interruptRequested (thread : ThreadId)
  | unboundedTable
  | guardNotReleased (identifier : String) (error : LockError)
  /-- A closed entry could not be given back. -/
  | closedNotHeld (identifier : String)
  /-- The probe before a disposal could not be given back. -/
  | probeNotHeld (identifier : String)
deriving Repr, DecidableEq

namespace Event

inductive Level where
  | trace | debug | warn | error
deriving Repr, DecidableEq

def Level.name : Level → String
  | trace => "TRACE"
  | debug => "DEBUG"
  | warn => "WARN"
  | error => "ERROR"

inductive Field where
  | text (s : String)
  | number (n : Nat)
  | thread (t : Option ThreadId)
deriving Repr, DecidableEq

def level : Event → Level
  | waiting .. => .trace
  | entryCreated _ | entryDisposed _ | tooManyQueued .. | attemptsExceeded .. | waitInterrupted _
  | interruptRequested _ => .debug
  | deadlock .. | unboundedTable => .warn
  | guardNotReleased .. | closedNotHeld _ | probeNotHeld _ => .error

def message : Event → String
  | entryCreated _ => "lock entry created"
  | entryDisposed _ => "lock entry disposed"
  | waiting .. => "waiting for lock"
  | tooManyQueued .. => "lock acquisition refused: too many queued threads"
  | attemptsExceeded .. => "lock acquisition failed: maximum attempts exceeded"
  | waitInterrupted _ => "lock wait interrupted"
  | deadlock .. => "imminent deadlock detected"
  | interruptRequested _ => "interrupt requested"
  | unboundedTable =>
    "lock factory created without backoff limits; contended locks may starve threads indefinitely"
  | guardNotReleased .. => "failed to release lock guard"
  | closedNotHeld _ => "closed entry was not held after locking it"
  | probeNotHeld _ => "disposal probe was not held"

/-- A count that may be absent. -/
def countText : Option Nat → String
  | none => "None"
  | some n => s!"Some({n})"

def fields : Event → List (String × Field)
  | entryCreated i | entryDisposed i | waitInterrupted i | closedNotHeld i | probeNotHeld i =>
    [("identifier", .text i)]
  | waiting i remaining => [("identifier", .text i), ("remaining", .text (countText remaining))]
  | tooManyQueued i queued => [("identifier", .text i), ("queued", .number queued)]
  | attemptsExceeded i attempts =>
    [("identifier", .text i), ("attempts", .text (countText attempts))]
  | deadlock i owner => [("identifier", .text i), ("owner", .thread owner)]
  | interruptRequested t => [("thread", .thread (some t))]
  | unboundedTable => []
  | guardNotReleased i e => [("identifier", .text i), ("error", .text e.message)]

end Event

end KeyedLocks
