import Mathlib.Data.List.Perm.Basic
import KeyedLocks.Mutex

/-!
# Owners, holds and queues of one mutex

What taking and giving back do to the holds of each thread (`holdsOf_of_take?`,
`holdsOf_of_release?`) for a mutex whose owner is there just when there are holds (`Wf`), when they
are refused, and what is left of a queue when a thread leaves it (`leaveQueue_perm`).
-/

namespace KeyedLocks

namespace Mutex

variable {x y : Mutex} {t u : ThreadId}

/-- There is an owner just when there are holds. -/
def Wf (x : Mutex) : Prop := x.owner = none ↔ x.holds = 0

theorem wf_default : Wf {} := by simp [Wf]

theorem owner_of_holdsOf (h : 0 < x.holdsOf t) : x.owner = some t := by
  unfold holdsOf at h
  split at h
  · assumption
  · cases h

theorem holdsOf_of_owner (hw : x.Wf) (h : x.owner = some t) : 0 < x.holdsOf t := by
  have h0 : x.holds ≠ 0 := by
    intro h0
    rw [hw.mpr h0] at h
    cases h
  unfold holdsOf
  rw [if_pos h]
  omega

/-! ## Taking -/

theorem take?_eq_some_iff : x.take? t = some y ↔
    x.owner = none ∧ y = { x with owner := some t, holds := 1 } ∨
      x.owner = some t ∧ y = { x with holds := x.holds + 1 } := by
  unfold take?
  split
  · next h => simp [h, eq_comm]
  · next o h =>
    split
    · next ho => subst ho; simp [h, eq_comm]
    · next ho => simp [h, ho]

theorem take?_eq_none_iff : x.take? t = none ↔ ∃ o, o ≠ t ∧ x.owner = some o := by
  unfold take?
  split
  · next h => simp [h]
  · next o h => simp [h]

theorem owner_of_take? (h : x.take? t = some y) : y.owner = some t := by
  rcases take?_eq_some_iff.mp h with ⟨-, rfl⟩ | ⟨ho, rfl⟩
  · rfl
  · exact ho

theorem eq_of_owner_of_take? (h : x.take? t = some y) (ho : y.owner = some u) : u = t := by
  rw [owner_of_take? h] at ho
  exact (Option.some.inj ho).symm

theorem free_of_take? (h : x.take? t = some y) : x.owner = none ∨ x.owner = some t :=
  (take?_eq_some_iff.mp h).imp And.left And.left

@[simp] theorem waiters_of_take? (h : x.take? t = some y) : y.waiters = x.waiters := by
  rcases take?_eq_some_iff.mp h with ⟨-, rfl⟩ | ⟨-, rfl⟩ <;> rfl

theorem Wf.take? (h : x.take? t = some y) : y.Wf := by
  rcases take?_eq_some_iff.mp h with ⟨-, rfl⟩ | ⟨ho, rfl⟩
  · simp [Wf]
  · simp [Wf, ho]

theorem holdsOf_of_take? (hw : x.Wf) (h : x.take? t = some y) (u : ThreadId) :
    y.holdsOf u = if u = t then x.holdsOf u + 1 else x.holdsOf u := by
  rcases take?_eq_some_iff.mp h with ⟨ho, rfl⟩ | ⟨ho, rfl⟩
  · have h0 := hw.mp ho
    by_cases hu : u = t
    · subst hu; simp [holdsOf, ho]
    · simp [holdsOf, ho, hu, Ne.symm hu]
  · by_cases hu : u = t
    · subst hu; simp [holdsOf, ho]
    · simp [holdsOf, ho, hu, Ne.symm hu]

/-! ## Giving back -/

theorem release?_eq_some_iff : x.release? t = some y ↔ x.owner = some t ∧
    y = if x.holds - 1 = 0 then { x with owner := none, holds := 0 }
      else { x with holds := x.holds - 1 } := by
  unfold release?
  split
  · next h => split <;> simp [h, eq_comm]
  · next h => simp [h]

theorem release?_eq_none_iff : x.release? t = none ↔ x.owner ≠ some t := by
  unfold release?
  split
  · next h => split <;> simp [h]
  · next h => simp [h]

theorem owner_of_release? (h : x.release? t = some y) : y.owner = none ∨ y.owner = x.owner := by
  obtain ⟨-, rfl⟩ := release?_eq_some_iff.mp h
  split <;> simp

@[simp] theorem waiters_of_release? (h : x.release? t = some y) : y.waiters = x.waiters := by
  obtain ⟨-, rfl⟩ := release?_eq_some_iff.mp h
  split <;> rfl

theorem Wf.release? (h : x.release? t = some y) : y.Wf := by
  obtain ⟨ho, rfl⟩ := release?_eq_some_iff.mp h
  split
  · simp [Wf]
  · next hh => simpa [Wf, ho] using hh

theorem Wf.holds_of_release? (hw : x.Wf) (h : x.release? t = some y) : y.holds + 1 = x.holds := by
  obtain ⟨ho, rfl⟩ := release?_eq_some_iff.mp h
  have hne : x.holds ≠ 0 := fun hz => by
    rw [hw.mpr hz] at ho
    cases ho
  split
  · next hone =>
    show 0 + 1 = x.holds
    omega
  · exact Nat.sub_add_cancel (Nat.one_le_iff_ne_zero.mpr hne)

theorem holdsOf_of_release? (h : x.release? t = some y) (u : ThreadId) :
    y.holdsOf u = if u = t then x.holdsOf u - 1 else x.holdsOf u := by
  obtain ⟨ho, rfl⟩ := release?_eq_some_iff.mp h
  by_cases hu : u = t
  · subst hu
    split <;> simp_all [holdsOf]
  · split <;> simp [holdsOf, ho, Ne.symm hu]

/-! ## Queues -/

theorem Wf.leave (h : x.Wf) : (x.leave t).Wf := h

end Mutex

theorem leaveQueue_perm (q : List ThreadId) (t : ThreadId) :
    (leaveQueue q t).Perm (q.erase t) := by
  rw [List.erase_eq_eraseIdx]
  unfold leaveQueue
  rcases hi : q.idxOf? t with _ | i
  · exact .refl _
  rcases hl : q.getLast? with _ | last
  · rw [List.getLast?_eq_none_iff.mp hl] at hi
    cases hi
  obtain ⟨hlt, -⟩ := List.idxOf?_eq_some_iff.mp hi
  -- The list with the place filled ends in `last` in any case, also when that was the place.
  have hlast : (q.set i last).getLast? = some last := by
    rw [List.getLast?_eq_getElem?] at hl ⊢
    rw [List.length_set, List.getElem?_set]
    split
    · rfl
    · exact hl
  have hsplit : (q.set i last).dropLast ++ [last] = q.set i last :=
    List.dropLast_append_getLast? last hlast
  have hperm : (last :: (q.set i last).dropLast).Perm (last :: q.eraseIdx i) := by
    refine (List.perm_append_singleton last _).symm.trans ?_
    rw [hsplit]
    exact List.set_perm_cons_eraseIdx hlt last
  exact hperm.cons_inv

theorem mem_leaveQueue {q : List ThreadId} (hq : q.Nodup) {t u : ThreadId} :
    u ∈ leaveQueue q t ↔ u ∈ q ∧ u ≠ t := by
  rw [(leaveQueue_perm q t).mem_iff, hq.mem_erase_iff, and_comm]

theorem nodup_leaveQueue {q : List ThreadId} (hq : q.Nodup) (t : ThreadId) :
    (leaveQueue q t).Nodup := (leaveQueue_perm q t).nodup_iff.mpr (hq.erase t)

end KeyedLocks
