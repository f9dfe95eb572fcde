import KeyedLocks.Step

/-!
# Reading the memory after a change

What each change of the memory leaves as it was: a change of a lock touches no other lock and no
table, a change of a table touches no other table and no lock, and the end of a wait
changes references at most. Other proofs read the memory after an action through these lemmas and do
not look into the arenas.
-/

namespace KeyedLocks

theorem Arena.fresh_modify {α : Type} [Inhabited α] (a : Arena α) (i : Nat) (f : α → α) :
    (a.modify i f).fresh = max a.fresh (i + 1) := Arena.fresh_set ..

namespace Memory

variable {m : Memory}

/-! ## Locks -/

theorem lock_modifyLock (m : Memory) (l : LockId) (f : Lock → Lock) (j : LockId) :
    (m.modifyLock l f).lock j = if j = l then f (m.lock l) else m.lock j := Arena.get_modify ..

theorem lock_of_locks {m' : Memory} (h : m'.locks = m.locks) : m'.lock = m.lock := by
  funext l
  rw [lock, h]
  rfl

theorem locks_modifyLock_modifyLock (m : Memory) (l : LockId) (f g : Lock → Lock) :
    ((m.modifyLock l f).modifyLock l g).locks = (m.modifyLock l fun k => g (f k)).locks := by
  show ((m.locks.set l _).set l (g ((m.locks.set l _).get l))) = _
  rw [Arena.get_set_self, Arena.set_set]
  rfl

theorem fresh_modifyLock_ge (m : Memory) (l : LockId) (f : Lock → Lock) :
    m.locks.fresh ≤ (m.modifyLock l f).locks.fresh := by
  rw [modifyLock, Arena.fresh_modify]
  exact Nat.le_max_left ..

theorem lock_addLock (m : Memory) (identifier : String) (j : LockId) :
    (m.addLock identifier).lock j = if j = m.locks.fresh then { identifier } else m.lock j :=
  Arena.get_add ..

/-! ## Tables -/

theorem table_modifyTable (m : Memory) (t : TableId) (f : Table → Table) (j : TableId) :
    (m.modifyTable t f).table j = if j = t then f (m.table t) else m.table j := Arena.get_modify ..

theorem fresh_modifyTable_ge (m : Memory) (t : TableId) (f : Table → Table) :
    m.tables.fresh ≤ (m.modifyTable t f).tables.fresh := by
  rw [modifyTable, Arena.fresh_modify]
  exact Nat.le_max_left ..

theorem table_addTable (m : Memory) (p : Policy) (j : TableId) :
    (m.addTable p).table j =
      if j = m.tables.fresh then { policy := p, references := 1 } else m.table j :=
  Arena.get_add ..

theorem table_fresh (m : Memory) : m.table m.tables.fresh = default :=
  Arena.get_of_fresh_le (Nat.le_refl _)

@[simp] theorem entries_retain (m : Memory) (t j : TableId) :
    ((m.retain t).table j).entries = (m.table j).entries := by
  rw [retain, table_modifyTable]
  split
  · next h => rw [h]
  · rfl

@[simp] theorem entries_forgo (m : Memory) (t j : TableId) :
    ((m.forgo t).table j).entries = (m.table j).entries := by
  rw [forgo, table_modifyTable]
  split
  · next h => rw [h]
  · rfl

theorem foldl_modifyTable (m : Memory) (f : Table → Table) (ts : List TableId) :
    (ts.foldl (modifyTable · · f) m).locks = m.locks ∧
      (ts.foldl (modifyTable · · f) m).registry = m.registry ∧
      (ts.foldl (modifyTable · · f) m).interrupted = m.interrupted := by
  induction ts generalizing m with
  | nil => exact ⟨rfl, rfl, rfl⟩
  | cons t ts ih => exact ih (m.modifyTable t f)

@[simp] theorem locks_retainAll (m : Memory) (ts : List TableId) :
    (m.retainAll ts).locks = m.locks := (foldl_modifyTable ..).1

@[simp] theorem locks_forgoAll (m : Memory) (ts : List TableId) :
    (m.forgoAll ts).locks = m.locks := (foldl_modifyTable ..).1

@[simp] theorem registry_retainAll (m : Memory) (ts : List TableId) :
    (m.retainAll ts).registry = m.registry := (foldl_modifyTable ..).2.1

@[simp] theorem registry_forgoAll (m : Memory) (ts : List TableId) :
    (m.forgoAll ts).registry = m.registry := (foldl_modifyTable ..).2.1

@[simp] theorem interrupted_retainAll (m : Memory) (ts : List TableId) :
    (m.retainAll ts).interrupted = m.interrupted := (foldl_modifyTable ..).2.2

@[simp] theorem interrupted_forgoAll (m : Memory) (ts : List TableId) :
    (m.forgoAll ts).interrupted = m.interrupted := (foldl_modifyTable ..).2.2

@[simp] theorem lock_retainAll (m : Memory) (ts : List TableId) (l : LockId) :
    (m.retainAll ts).lock l = m.lock l := by rw [lock, lock, locks_retainAll]

@[simp] theorem lock_forgoAll (m : Memory) (ts : List TableId) (l : LockId) :
    (m.forgoAll ts).lock l = m.lock l := by rw [lock, lock, locks_forgoAll]

@[simp] theorem entries_retainAll (m : Memory) (ts : List TableId) (j : TableId) :
    ((m.retainAll ts).table j).entries = (m.table j).entries := by
  induction ts generalizing m with
  | nil => rfl
  | cons t ts ih => exact (ih (m.retain t)).trans (entries_retain ..)

/-! ## Critical sections and the ends of operations -/

theorem critical_eq_some_iff {α : Type} {l : LockId} {f : Lock → α} {a : α} :
    m.critical l f = some a ↔ (m.lock l).latch = none ∧ f (m.lock l) = a := by
  unfold critical
  split
  · next h => simp [h]
  · next h => simp [h]

end Memory

namespace Errand

variable {e : Errand}

@[simp] theorem locks_conclude (m : Memory) (r : WaitResult) :
    (e.conclude m r).memory.locks = m.locks := by
  cases e with
  | attempt a left =>
    cases r with
    | interrupted => exact Memory.locks_forgoAll ..
    | acquired | timedOut => rfl
  | plain l => rfl

@[simp] theorem interrupted_conclude (m : Memory) (r : WaitResult) :
    (e.conclude m r).memory.interrupted = m.interrupted := by
  cases e with
  | attempt a left =>
    cases r with
    | interrupted => exact Memory.interrupted_forgoAll ..
    | acquired | timedOut => rfl
  | plain l => rfl

end Errand

namespace Releaser

variable {h : Handle} {who : Releaser}

@[simp] theorem phase_conclude (m : Memory) (r : Except LockError Unit) :
    (who.conclude h m r).phase = .idle := by
  cases r <;> cases who <;> rfl

end Releaser

end KeyedLocks
