import KeyedLocks.Arena
import KeyedLocks.Deadlock
import KeyedLocks.Policy.Basic
import KeyedLocks.Registry

/-!
# The memory threads share

`Memory` holds every lock and every table of locks, the registry of tables, and the threads with a
pending interrupt. A `Lock` is a mutex with what lies around it: the latch that is held while one
critical section spans several actions, the threads asleep until they are notified, and, for a lock
that a table hands out, its identifier and whether it was closed. A `Table` maps identifiers to
locks; it lives while something refers to it.
-/

namespace KeyedLocks

abbrev LockId := Nat

abbrev TableId := Nat

/-- A mutex, the threads asleep on it, and its part in a table. -/
structure Lock where
  identifier : String := ""
  mutex : Mutex := {}
  /-- The thread whose critical section is not over yet. -/
  latch : Option ThreadId := none
  /-- The threads asleep in a wait with no wake-up on its way. -/
  sleepers : List ThreadId := []
  closed : Bool := false
deriving Repr, DecidableEq, Inhabited

/-- Locks by identifier, the policy for obtaining them, and the count of references to the table. -/
structure Table where
  policy : Policy := .unbounded
  entries : List (String × LockId) := []
  references : Nat := 0
deriving DecidableEq, Inhabited

namespace Table

def find? (t : Table) (identifier : String) : Option LockId := t.entries.lookup identifier

/-- Register a lock under an identifier that has none. -/
def insert (t : Table) (identifier : String) (l : LockId) : Table :=
  { t with entries := t.entries ++ [(identifier, l)] }

/-- Whether `l` is what the identifier is registered for. -/
def holds (t : Table) (identifier : String) (l : LockId) : Bool := t.find? identifier == some l

/-- Take out the identifier if `l` is what it is registered for. -/
def remove (t : Table) (identifier : String) (l : LockId) : Table :=
  if t.holds identifier l then { t with entries := t.entries.filter (·.1 ≠ identifier) } else t

def locks (t : Table) : List LockId := t.entries.map (·.2)

end Table

/-- Everything threads share. -/
structure Memory where
  locks : Arena Lock := .empty
  tables : Arena Table := .empty
  registry : Registry TableId := {}
  /-- The threads with an interrupt that nothing consumed so far. -/
  interrupted : List ThreadId := []
deriving DecidableEq, Inhabited

namespace Memory

def lock (m : Memory) (l : LockId) : Lock := m.locks.get l

def table (m : Memory) (t : TableId) : Table := m.tables.get t

def modifyLock (m : Memory) (l : LockId) (f : Lock → Lock) : Memory :=
  { m with locks := m.locks.modify l f }

def modifyTable (m : Memory) (t : TableId) (f : Table → Table) : Memory :=
  { m with tables := m.tables.modify t f }

def setMutex (m : Memory) (l : LockId) (x : Mutex) : Memory :=
  m.modifyLock l fun k => { k with mutex := x }

def setLatch (m : Memory) (l : LockId) (t : Option ThreadId) : Memory :=
  m.modifyLock l fun k => { k with latch := t }

def close (m : Memory) (l : LockId) : Memory := m.modifyLock l fun k => { k with closed := true }

/-- Put `t` to sleep on a lock. -/
def sleep (m : Memory) (l : LockId) (t : ThreadId) : Memory :=
  m.modifyLock l fun k => { k with sleepers := k.sleepers ++ [t] }

/-- Send `t` a wake-up. -/
def rouse (m : Memory) (l : LockId) (t : ThreadId) : Memory :=
  m.modifyLock l fun k => { k with sleepers := k.sleepers.filter (· ≠ t) }

/-- Send every thread asleep on a lock a wake-up. -/
def notifyAll (m : Memory) (l : LockId) : Memory :=
  m.modifyLock l fun k => { k with sleepers := [] }

/-! ## Tables -/

def isAlive (m : Memory) (t : TableId) : Bool := (m.table t).references != 0

/-- The tables something refers to, in the order of their registration. -/
def liveTables (m : Memory) : List TableId := m.registry.live m.isAlive

def liveCount (m : Memory) : Nat := m.registry.liveCount m.isAlive

def retain (m : Memory) (t : TableId) : Memory :=
  m.modifyTable t fun x => { x with references := x.references + 1 }

def forgo (m : Memory) (t : TableId) : Memory :=
  m.modifyTable t fun x => { x with references := x.references - 1 }

def retainAll (m : Memory) (ts : List TableId) : Memory := ts.foldl retain m

def forgoAll (m : Memory) (ts : List TableId) : Memory := ts.foldl forgo m

/-- Add a table with one reference to it. -/
def addTable (m : Memory) (policy : Policy) : Memory :=
  { m with
    tables := m.tables.add { policy, references := 1 }
    registry := m.registry.register m.isAlive m.tables.fresh }

/-- Add a lock that no table holds. -/
def addLock (m : Memory) (identifier : String) : Memory :=
  { m with locks := m.locks.add { identifier } }

/-- Add a lock and register it in a table. -/
def addEntry (m : Memory) (t : TableId) (identifier : String) : Memory :=
  (m.addLock identifier).modifyTable t (·.insert identifier m.locks.fresh)

/-- Take a lock out of a table, if it is what its identifier is registered for. -/
def removeEntry (m : Memory) (t : TableId) (l : LockId) : Memory :=
  m.modifyTable t (·.remove (m.lock l).identifier l)

/-- The locks of all live tables. -/
def liveLocks (m : Memory) : List LockId := m.liveTables.flatMap fun t => (m.table t).locks

/-- The number of identifiers registered in a table. -/
def activeLocks (m : Memory) (t : TableId) : Nat := (m.table t).entries.length

/-- The lock registered under an identifier. -/
def entry? (m : Memory) (t : TableId) (identifier : String) : Option Lock :=
  ((m.table t).find? identifier).map m.lock

/-- Whether any thread holds an identifier. -/
def isLocked (m : Memory) (t : TableId) (identifier : String) : Bool :=
  (m.entry? t identifier).any (·.mutex.isLocked)

/-- The number of threads waiting for an identifier. -/
def queueLength (m : Memory) (t : TableId) (identifier : String) : Nat :=
  ((m.entry? t identifier).map (·.mutex.queueLength)).getD 0

/-! ## Interrupts -/

def isInterrupted (m : Memory) (t : ThreadId) : Bool := m.interrupted.contains t

def interrupt (m : Memory) (t : ThreadId) : Memory :=
  { m with interrupted := if t ∈ m.interrupted then m.interrupted else m.interrupted ++ [t] }

def clearInterrupt (m : Memory) (t : ThreadId) : Memory :=
  { m with interrupted := m.interrupted.filter (· ≠ t) }

end Memory

end KeyedLocks
