import KeyedLocks.Proofs.Ledger

/-!
# Mutual exclusion

At most one thread has holds on an identifier of a table (`Session.Reachable.holds_unique`). The
mutex alone says so for the holds on one lock. But an identifier outlives its lock: that may be
closed and taken out of its table, and the next thread makes a new one. `Orderly` says that nobody
has holds on the old lock by then.
-/

namespace KeyedLocks

namespace Session

variable {x : Session} {t u : ThreadId} {table : TableId} {identifier : String}

/-- No thread gives back more holds than it was granted. -/
theorem Reachable.releases_le_obtains (hx : x.Reachable) (t : ThreadId) (table : TableId)
    (identifier : String) : x.releases t table identifier ≤ x.obtains t table identifier := by
  have h := hx.orderly
  have hn : 0 ≤ net x.deals (·.concerns t table identifier) := by
    rcases hi : (x.memory.table table).entries.lookup identifier with _ | l
    · exact Int.le_of_eq (h.2.absent hi t).symm
    · rw [h.2.entry (mem_of_lookup hi) t]
      exact h.2.nonneg t l
  simp only [net] at hn
  simp only [obtains, releases]
  omega

/-- **Mutual exclusion**, also across the disposal of locks. -/
theorem Reachable.holds_unique (hx : x.Reachable) (ht : x.Holds t table identifier)
    (hu : x.Holds u table identifier) : t = u := by
  have h := hx.orderly
  obtain ⟨l, hl⟩ := h.entry_of_holds ht
  have ho := (h.holds_iff hl).mp ht
  have ho' := (h.holds_iff hl).mp hu
  exact h.2.exclusive (h.held_of_outstanding ho) (h.held_of_outstanding ho')

/-- Thread 1 disposes of the lock that thread 2 has just looked up. Thread 2 backs out of it and
gets a new one. -/
def relay : List Move :=
  [.call 0 (.act (.makeTable .unbounded false)), .act 0,
    .call 1 (.obtain 0 "a"), .act 1, .act 1, .act 1, .act 1,
    .call 1 (.release ⟨0, 0⟩), .act 1, .act 1,
    .call 2 (.obtain 0 "a"), .act 2,
    .act 1, .act 1, .act 1, .act 1, .act 1, .act 1,
    .act 2, .act 2, .act 2, .act 2, .act 2, .act 2, .act 2, .act 2, .act 2]

theorem holds_unique_relay : ∃ x, run Allowed {} relay = some x ∧
    x.issued ⟨0, 0⟩ ∧ x.issued ⟨0, 1⟩ ∧ x.Holds 2 0 "a" ∧ ∀ u, x.Holds u 0 "a" → u = 2 := by
  have hx : ∃ x, run Allowed {} relay = some x ∧ x.Reachable ∧
      x.issued ⟨0, 0⟩ ∧ x.issued ⟨0, 1⟩ ∧ x.Holds 2 0 "a" := exists_of_run (by decide +kernel)
  obtain ⟨x, hr, hx, h₀, h₁, h₂⟩ := hx
  exact ⟨x, hr, h₀, h₁, h₂, fun u hu => Reachable.holds_unique hx hu h₂⟩

end Session

end KeyedLocks
