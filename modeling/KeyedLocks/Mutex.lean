/-!
# The reentrant mutex

`Mutex` is what the short critical sections of a reentrant lock work on: who owns it, how many
holds the owner has, and which threads wait for it. A thread that starts to wait goes to the end
of the queue; when one leaves, the last one takes its place.
-/

namespace KeyedLocks

abbrev ThreadId := Nat

/-- The owner of a reentrant lock, its holds, and the threads that wait. -/
structure Mutex where
  owner : Option ThreadId := none
  holds : Nat := 0
  waiters : List ThreadId := []
deriving Repr, DecidableEq, Inhabited

/-- Take the first occurrence of `t` out of a queue; the last element moves into its place. -/
def leaveQueue (queue : List ThreadId) (t : ThreadId) : List ThreadId :=
  match queue.idxOf? t, queue.getLast? with
  | some i, some last => (queue.set i last).dropLast
  | _, _ => queue

namespace Mutex

def isLocked (m : Mutex) : Bool := m.owner.isSome

def isHeldBy (m : Mutex) (t : ThreadId) : Bool := m.owner == some t

/-- The holds of `t`: none unless it is the owner. -/
def holdsOf (m : Mutex) (t : ThreadId) : Nat := if m.owner = some t then m.holds else 0

def queueLength (m : Mutex) : Nat := m.waiters.length

/-- A free lock gets an owner with one hold, the owner gets one hold more, anyone else nothing. -/
def take? (m : Mutex) (t : ThreadId) : Option Mutex :=
  match m.owner with
  | none => some { m with owner := some t, holds := 1 }
  | some o => if o = t then some { m with holds := m.holds + 1 } else none

/-- The owner gives back one hold; with the last one the lock is free. -/
def release? (m : Mutex) (t : ThreadId) : Option Mutex :=
  if m.owner = some t then
    if m.holds - 1 = 0 then some { m with owner := none, holds := 0 }
    else some { m with holds := m.holds - 1 }
  else none

def enqueue (m : Mutex) (t : ThreadId) : Mutex := { m with waiters := m.waiters ++ [t] }

def leave (m : Mutex) (t : ThreadId) : Mutex := { m with waiters := leaveQueue m.waiters t }

end Mutex

end KeyedLocks
