import KeyedLocks.Arena.Cells

/-!
# Numbered values

`Arena α` is a total map from numbers to values: what was never written is the default value.
`fresh` is a number above every one written so far, so `add` never reuses one. An arena is
determined by `fresh` and `get` (`ext`).
-/

namespace KeyedLocks

/-- Values numbered from zero; all but finitely many are the default value. -/
structure Arena (α : Type) where
  /-- Nothing was written under this number, nor under any above it. -/
  fresh : Nat
  cells : Cells α
  hasSize : cells.HasSize fresh
deriving DecidableEq

namespace Arena

variable {α : Type}

/-- Nothing is written. -/
def empty : Arena α := ⟨0, .none, rfl⟩

instance : Inhabited (Arena α) := ⟨empty⟩

/-- Write under the fresh number. -/
def add (a : Arena α) (v : α) : Arena α where
  fresh := a.fresh + 1
  cells := a.cells.push v a.fresh
  hasSize := a.hasSize.push v

@[simp] theorem fresh_add (a : Arena α) (v : α) : (a.add v).fresh = a.fresh + 1 := rfl

variable [Inhabited α]

def get (a : Arena α) (i : Nat) : α := (a.cells.get? i).getD default

/-- Write the default value under so many fresh numbers. -/
def pad (a : Arena α) : Nat → Arena α
  | 0 => a
  | n + 1 => (a.add default).pad n

/-- Write under `i`, and the default value under what is skipped. -/
def set (a : Arena α) (i : Nat) (v : α) : Arena α :=
  if i < a.fresh then { a with cells := a.cells.set v i, hasSize := a.hasSize.set v i }
  else (a.pad (i - a.fresh)).add v

def modify (a : Arena α) (i : Nat) (f : α → α) : Arena α := a.set i (f (a.get i))

theorem get_of_fresh_le {a : Arena α} {i : Nat} (h : a.fresh ≤ i) : a.get i = default := by
  simp [get, a.hasSize.get?_eq_none h]

theorem get_add (a : Arena α) (v : α) (j : Nat) :
    (a.add v).get j = if j = a.fresh then v else a.get j := by
  simp only [get, add, a.hasSize.get?_push]
  split <;> rfl

@[simp] theorem fresh_pad (a : Arena α) (n : Nat) : (a.pad n).fresh = a.fresh + n := by
  induction n generalizing a with
  | zero => rfl
  | succ n ih => rw [pad, ih, fresh_add]; omega

@[simp] theorem get_pad (a : Arena α) (n j : Nat) : (a.pad n).get j = a.get j := by
  induction n generalizing a with
  | zero => rfl
  | succ n ih =>
    rw [pad, ih, get_add]
    split
    · next h => exact (get_of_fresh_le (Nat.le_of_eq h.symm)).symm
    · rfl

@[simp] theorem fresh_set (a : Arena α) (i : Nat) (v : α) :
    (a.set i v).fresh = max a.fresh (i + 1) := by
  unfold set
  split
  · show a.fresh = _; omega
  · rw [fresh_add, fresh_pad]; omega

theorem get_set (a : Arena α) (i j : Nat) (v : α) :
    (a.set i v).get j = if j = i then v else a.get j := by
  unfold set
  split
  · next h =>
    simp only [get, a.hasSize.get?_set h]
    split <;> rfl
  · next h =>
    have hi : a.fresh + (i - a.fresh) = i := by omega
    rw [get_add, get_pad, fresh_pad, hi]

@[simp] theorem get_set_self (a : Arena α) (i : Nat) (v : α) : (a.set i v).get i = v := by
  simp [get_set]

theorem get_set_ne (a : Arena α) {i j : Nat} (v : α) (h : j ≠ i) : (a.set i v).get j = a.get j := by
  simp [get_set, h]

theorem get_modify (a : Arena α) (i j : Nat) (f : α → α) :
    (a.modify i f).get j = if j = i then f (a.get i) else a.get j := by
  rw [modify, get_set]

theorem ext {a b : Arena α} (hf : a.fresh = b.fresh) (hg : ∀ i, a.get i = b.get i) : a = b := by
  obtain ⟨n, c, hc⟩ := a
  obtain ⟨m, d, hd⟩ := b
  obtain rfl : n = m := hf
  obtain rfl : c = d := Cells.ext hc hd fun i => by
    rcases Nat.lt_or_ge i n with hi | hi
    · have hs := hc.isSome_get? hi
      have ht := hd.isSome_get? hi
      have := hg i
      simp only [get] at this
      rw [Option.isSome_iff_exists] at hs ht
      obtain ⟨x, hx⟩ := hs
      obtain ⟨y, hy⟩ := ht
      simp_all
    · rw [hc.get?_eq_none hi, hd.get?_eq_none hi]
  rfl

/-- The last of two values written under one number counts. -/
theorem set_set (a : Arena α) (i : Nat) (v w : α) : (a.set i v).set i w = a.set i w := by
  refine ext (by simp) fun j => ?_
  rw [get_set, get_set, get_set]
  split <;> rfl

/-- To write what is there changes nothing. -/
theorem set_get_self (a : Arena α) {i : Nat} (h : i < a.fresh) : a.set i (a.get i) = a := by
  refine ext (by rw [fresh_set]; omega) fun j => ?_
  rw [get_set]
  split
  · next h => rw [h]
  · rfl

end Arena

end KeyedLocks
