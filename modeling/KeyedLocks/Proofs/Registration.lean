import Mathlib.Data.List.Nodup
import KeyedLocks.Proofs.Holdings

/-!
# Registered locks

Tables are tidy: they register each identifier once, for a lock that bears it, and each lock in one
table only (`Tidy`). A lock has its home in a table when no other table registers it, and this one
does as long as the lock is not closed (`Homed`). `Evolves` is what all changes of the holdings have
in common: homes stay, closed locks stay closed, and a lock that is out of all tables never comes
back.
-/

namespace KeyedLocks

section
variable {α β : Type} [DecidableEq α] {es : List (α × β)} {i : α} {l : β}

theorem mem_of_lookup (h : es.lookup i = some l) : (i, l) ∈ es := by
  obtain ⟨es₁, es₂, rfl, -⟩ := List.lookup_eq_some_iff.mp h
  exact List.mem_append_right _ (List.mem_cons_self ..)

theorem lookup_of_mem (hn : (es.map (·.1)).Nodup) (h : (i, l) ∈ es) : es.lookup i = some l := by
  induction es with
  | nil => cases h
  | cons e es ih =>
    rw [List.map_cons, List.nodup_cons] at hn
    rcases List.mem_cons.mp h with rfl | h
    · exact List.lookup_cons_self
    · have hi : i ≠ e.1 := by
        intro he
        have hmem : i ∈ es.map (·.1) := List.mem_map_of_mem h
        rw [he] at hmem
        exact hn.1 hmem
      rw [List.lookup_cons, beq_false_of_ne hi]
      exact ih hn.2 h

theorem not_mem_of_lookup (h : es.lookup i = none) (l : β) : (i, l) ∉ es := by
  intro hm
  have := List.lookup_eq_none_iff.mp h (i, l) hm
  simp at this

/-- Without the entries of one key, a look-up of another finds what it found. -/
theorem lookup_filter (es : List (α × β)) (i j : α) :
    (es.filter (·.1 ≠ i)).lookup j = if j = i then none else es.lookup j := by
  induction es with
  | nil => split <;> rfl
  | cons e es ih =>
    by_cases he : e.1 = i
    · rw [List.filter_cons_of_neg (by simpa using he), ih]
      by_cases hj : j = i
      · rw [if_pos hj, if_pos hj]
      · rw [if_neg hj, if_neg hj, List.lookup_cons, beq_false_of_ne (he ▸ hj)]
    · rw [List.filter_cons_of_pos (by simpa using he), List.lookup_cons, List.lookup_cons, ih]
      by_cases hj : j = i
      · rw [if_pos hj, if_pos hj, beq_false_of_ne (hj ▸ Ne.symm he)]
      · rw [if_neg hj, if_neg hj]

end

namespace Holdings

variable {H : Holdings} {t : TableId} {i : String} {l : LockId}

/-- Some table registers the lock. -/
def Registered (H : Holdings) (l : LockId) : Prop := ∃ t i, (i, l) ∈ H.entries t

/-- `l` belongs to table `t`, which registers it until it is closed. -/
structure Homed (H : Holdings) (t : TableId) (l : LockId) : Prop where
  known : l < H.fresh
  sole : ∀ {t' i}, (i, l) ∈ H.entries t' → t' = t
  kept : H.closed l = false → (H.identifier l, l) ∈ H.entries t

structure Tidy (H : Holdings) : Prop where
  nodup : ∀ t, ((H.entries t).map (·.1)).Nodup
  named : ∀ {t i l}, (i, l) ∈ H.entries t → H.identifier l = i
  known : ∀ {t i l}, (i, l) ∈ H.entries t → l < H.fresh
  sole : ∀ {t t' i i' l}, (i, l) ∈ H.entries t → (i', l) ∈ H.entries t' → t = t'

theorem Tidy.lookup_eq_some_iff (h : H.Tidy) :
    (H.entries t).lookup i = some l ↔ (i, l) ∈ H.entries t :=
  ⟨mem_of_lookup, lookup_of_mem (h.nodup t)⟩

theorem Tidy.eq_of_mem (h : H.Tidy) {l' : LockId} (hl : (i, l) ∈ H.entries t)
    (hl' : (i, l') ∈ H.entries t) : l = l' := by
  have := lookup_of_mem (h.nodup t) hl
  rw [lookup_of_mem (h.nodup t) hl'] at this
  exact (Option.some.inj this).symm

theorem Tidy.homed (h : H.Tidy) (hl : (i, l) ∈ H.entries t) : H.Homed t l where
  known := h.known hl
  sole hl' := h.sole hl' hl
  kept _ := by rw [h.named hl]; exact hl

theorem tidy_default : Memory.holdings {} |>.Tidy where
  nodup _ := List.nodup_nil
  named h := nomatch h
  known h := nomatch h
  sole h := nomatch h

/-- What changes of the holdings have in common. -/
structure Evolves (H H' : Holdings) : Prop where
  homed : ∀ {t l}, H.Homed t l → H'.Homed t l
  closed : ∀ {l}, l < H.fresh → H.closed l = true → H'.closed l = true
  gone : ∀ {l}, l < H.fresh → ¬ H.Registered l → ¬ H'.Registered l

theorem evolves_reheld (H : Holdings) (held : LockId → ThreadId → Nat) :
    H.Evolves { H with held } := ⟨fun h => ⟨h.known, h.sole, h.kept⟩, fun _ => id, fun _ => id⟩

theorem Tidy.reheld (h : H.Tidy) (held : LockId → ThreadId → Nat) : Tidy { H with held } :=
  ⟨h.nodup, h.named, h.known, h.sole⟩

theorem Tidy.close (h : H.Tidy) (l : LockId) : (H.close l).Tidy :=
  ⟨h.nodup, h.named, h.known, h.sole⟩

theorem evolves_close (H : Holdings) (l : LockId) : H.Evolves (H.close l) where
  homed {t k} h := by
    refine ⟨h.known, h.sole, ?_⟩
    intro hc
    have hc : (if k = l then true else H.closed k) = false := hc
    split at hc
    · cases hc
    · exact h.kept hc
  closed {k} _ hc := by
    show (if k = l then true else H.closed k) = true
    split
    · rfl
    · exact hc
  gone _ := id

/-! ## Removal -/

theorem Tidy.mem_remove (h : H.Tidy) {j : TableId} {k : LockId} :
    (i, k) ∈ (H.remove t l).entries j ↔ (i, k) ∈ H.entries j ∧ ¬ (j = t ∧ k = l) := by
  unfold remove
  split
  · next hr =>
    have hm := mem_of_lookup hr
    simp only
    split
    · next hj =>
      subst hj
      simp only [List.mem_filter, decide_eq_true_eq, true_and]
      apply and_congr_right
      intro hk
      apply not_congr
      constructor
      · rintro rfl
        exact h.eq_of_mem hk hm
      · rintro rfl
        exact (h.named hk).symm
    · next hj => simp only [hj, false_and, not_false_eq_true, and_true]
  · next hr =>
    constructor
    · intro hk
      refine ⟨hk, ?_⟩
      rintro ⟨rfl, rfl⟩
      apply hr
      rw [h.named hk]
      exact h.lookup_eq_some_iff.mpr hk
    · exact And.left

@[simp] theorem held_remove : (H.remove t l).held = H.held := by unfold remove; split <;> rfl

@[simp] theorem closed_remove : (H.remove t l).closed = H.closed := by unfold remove; split <;> rfl

@[simp] theorem identifier_remove : (H.remove t l).identifier = H.identifier := by
  unfold remove; split <;> rfl

@[simp] theorem fresh_remove : (H.remove t l).fresh = H.fresh := by unfold remove; split <;> rfl

theorem Tidy.remove (h : H.Tidy) (t : TableId) (l : LockId) : (H.remove t l).Tidy where
  nodup j := by
    unfold Holdings.remove
    split
    · simp only
      split
      · exact ((h.nodup t).sublist (List.filter_sublist.map _))
      · exact h.nodup j
    · exact h.nodup j
  named hm := by
    rw [identifier_remove]
    exact h.named (h.mem_remove.mp hm).1
  known hm := by
    rw [fresh_remove]
    exact h.known (h.mem_remove.mp hm).1
  sole hm hm' := h.sole (h.mem_remove.mp hm).1 (h.mem_remove.mp hm').1

theorem Tidy.evolves_remove (h : H.Tidy) (hc : H.closed l = true) :
    H.Evolves (H.remove t l) where
  homed {t' k} hk := by
    constructor
    · rw [fresh_remove]
      exact hk.known
    · intro j i hm
      exact hk.sole (h.mem_remove.mp hm).1
    · intro ho
      rw [closed_remove] at ho
      rw [identifier_remove]
      apply h.mem_remove.mpr
      refine ⟨hk.kept ho, ?_⟩
      rintro ⟨-, rfl⟩
      rw [hc] at ho
      cases ho
  closed _ hk := by
    rw [closed_remove]
    exact hk
  gone _ hk := by
    rintro ⟨j, i, hm⟩
    exact hk ⟨j, i, (h.mem_remove.mp hm).1⟩

theorem Tidy.not_registered_remove (h : H.Tidy) (hl : H.Homed t l) :
    ¬ (H.remove t l).Registered l := by
  rintro ⟨j, i, hm⟩
  obtain ⟨hm, hn⟩ := h.mem_remove.mp hm
  exact hn ⟨hl.sole hm, rfl⟩

/-! ## Creation -/

theorem mem_create {j : TableId} {i' : String} {k : LockId} :
    (i', k) ∈ (H.create t i).entries j ↔
      (i', k) ∈ H.entries j ∨ j = t ∧ i' = i ∧ k = H.fresh := by
  simp only [create]
  split
  · next hj =>
    subst hj
    simp only [List.mem_append, List.mem_singleton, Prod.mk.injEq, true_and]
  · next hj => simp only [hj, false_and, or_false]

theorem Tidy.not_mem_fresh (h : H.Tidy) : ¬ H.Registered H.fresh := by
  rintro ⟨j, i, hm⟩
  exact Nat.lt_irrefl _ (h.known hm)

theorem identifier_create (hl : l ≠ H.fresh) : (H.create t i).identifier l = H.identifier l := by
  simp only [create, addLock, hl, if_false]

theorem closed_create (hl : l ≠ H.fresh) : (H.create t i).closed l = H.closed l := by
  simp only [create, addLock, hl, if_false]

theorem Tidy.create (h : H.Tidy) (hi : (H.entries t).lookup i = none) : (H.create t i).Tidy where
  nodup j := by
    simp only [Holdings.create]
    split
    · rw [List.map_append, List.nodup_append]
      refine ⟨h.nodup t, List.nodup_singleton _, ?_⟩
      rintro a ha b hb rfl
      obtain ⟨⟨i', l⟩, hm, rfl⟩ := List.mem_map.mp ha
      obtain rfl : i' = i := by simpa using hb
      exact not_mem_of_lookup hi l hm
    · exact h.nodup j
  named hm := by
    rcases mem_create.mp hm with hm | ⟨-, rfl, rfl⟩
    · rw [identifier_create (Nat.ne_of_lt (h.known hm))]
      exact h.named hm
    · simp only [Holdings.create, addLock, if_true]
  known hm := by
    rcases mem_create.mp hm with hm | ⟨-, -, rfl⟩
    · exact Nat.lt_succ_of_lt (h.known hm)
    · exact Nat.lt_succ_self _
  sole {j j' _ _ l} hm hm' := by
    rcases mem_create.mp hm with ho | ⟨hj, -, hl⟩ <;>
      rcases mem_create.mp hm' with ho' | ⟨hj', -, hl'⟩
    · exact h.sole ho ho'
    · exact absurd ⟨_, _, ho⟩ (hl' ▸ h.not_mem_fresh)
    · exact absurd ⟨_, _, ho'⟩ (hl ▸ h.not_mem_fresh)
    · exact hj.trans hj'.symm

theorem evolves_create (H : Holdings) (t : TableId) (i : String) : H.Evolves (H.create t i) where
  homed {t' k} hk := by
    have hne : k ≠ H.fresh := Nat.ne_of_lt hk.known
    constructor
    · exact Nat.lt_succ_of_lt hk.known
    · intro j i' hm
      rcases mem_create.mp hm with hm | ⟨-, -, he⟩
      · exact hk.sole hm
      · exact absurd he hne
    · intro ho
      rw [closed_create hne] at ho
      rw [identifier_create hne]
      exact mem_create.mpr (.inl (hk.kept ho))
  closed hlt hk := by
    rw [closed_create (Nat.ne_of_lt hlt)]
    exact hk
  gone {k} hlt hk := by
    rintro ⟨j, i', hm⟩
    rcases mem_create.mp hm with hm | ⟨-, -, rfl⟩
    · exact hk ⟨j, i', hm⟩
    · exact Nat.lt_irrefl _ hlt

end Holdings

end KeyedLocks
