import KeyedLocks.Mutex
import KeyedLocks.WaitGraph

/-!
# Deadlock verdicts on a snapshot

A snapshot is a list of mutexes. Its wait graph has an edge from each owner to each thread in the
queue of a lock it owns. Waiting on a lock would close a cycle when its owner already waits,
directly or not, for a lock the asking thread holds.
-/

namespace KeyedLocks

/-- Each owner with the threads that wait for a lock of its own, lock by lock. -/
def waitGraph (locks : List Mutex) : WaitGraph ThreadId where
  edges := locks.flatMap fun m =>
    match m.owner with
    | none => []
    | some o => m.waiters.map (o, ·)

/-- The threads that wait, directly or not, for a lock of `me`. -/
def threadsWaitingFor (me : ThreadId) (locks : List Mutex) : List ThreadId :=
  (waitGraph locks).transitiveWaiters me

/-- Whether a wait of `me` on `target` would close a cycle through `locks`. -/
def wouldDeadlock (me : ThreadId) (target : Mutex) (locks : List Mutex) : Bool :=
  match target.owner with
  | none => false
  | some o => o ≠ me && o ∈ threadsWaitingFor me locks

end KeyedLocks
