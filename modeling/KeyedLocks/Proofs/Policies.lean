import KeyedLocks.Proofs.Edits

/-!
# Policies stay

A table keeps the policy it was made with: `Memory.Upholds` says so of a change of the memory, and
`System.upholds_of_moved` that every move is such a change. A policy that bounds anything is one of
a table that was made (`Memory.lt_fresh_of_policy`), since what was never written has no limits.
-/

namespace KeyedLocks

namespace Memory

variable {m m' : Memory} {t : TableId}

/-- No table is lost, and none gets another policy. -/
structure Upholds (m m' : Memory) : Prop where
  fresh_le : m.tables.fresh ≤ m'.tables.fresh
  policy : ∀ {t}, t < m.tables.fresh → (m'.table t).policy = (m.table t).policy

theorem Edits.upholds {L : LockId → Prop} {T : TableId → Prop} (h : m.Edits L T m') :
    m.Upholds m' where
  fresh_le := h.fresh_le.2
  policy := h.policy_eq

theorem lt_fresh_of_policy (h : (m.table t).policy ≠ .unbounded) : t < m.tables.fresh := by
  by_contra hn
  have hd : m.table t = default := Arena.get_of_fresh_le (Nat.le_of_not_lt hn)
  rw [hd] at h
  exact h rfl

theorem lt_fresh_of_attempts {n : Nat} (h : (m.table t).policy.attempts = some n) :
    t < m.tables.fresh := by
  apply lt_fresh_of_policy
  intro hp
  rw [hp] at h
  cases h

theorem lt_fresh_of_queueLimit {n : Nat} (h : (m.table t).policy.queueLimit = some n) :
    t < m.tables.fresh := by
  apply lt_fresh_of_policy
  intro hp
  rw [hp] at h
  cases h

end Memory

/-- **No move changes a policy.** -/
theorem System.upholds_of_moved {s s' : System} {move : Move} (hm : s.Moved move s') :
    s.memory.Upholds s'.memory := by
  cases hm with
  | @call t c =>
    exact (c.begin_edits s.now s.memory (fun _ => False) (fun _ => False)).upholds
  | act hst => exact (Phase.next_edits hst).upholds
  | rouse | tick => exact ⟨Nat.le_refl _, fun _ => rfl⟩

end KeyedLocks
