/-!
# A tree of numbered cells

`Cells` holds one value for each number below its size. The root is cell 0; of the others the odd
numbers lie on one side and the even ones on the other, so a cell is found, and written, in as many
steps as its number has binary digits. `HasSize` says that the cells below a number are there and no
others; two trees of one size with the same values are equal (`ext`).
-/

namespace KeyedLocks

inductive Cells (α : Type) where
  | none
  | node (value : α) (odds evens : Cells α)
deriving Repr, DecidableEq, Inhabited

namespace Cells

variable {α : Type}

/-- The value of cell `i`, if it is there. -/
def get? : Cells α → Nat → Option α
  | none, _ => .none
  | node a odds evens, i =>
    if i = 0 then some a else if i % 2 = 1 then odds.get? (i / 2) else evens.get? (i / 2 - 1)

/-- Write cell `i` if it is there. -/
def set (v : α) : Cells α → Nat → Cells α
  | none, _ => none
  | node a odds evens, i =>
    if i = 0 then node v odds evens
    else if i % 2 = 1 then node a (odds.set v (i / 2)) evens
    else node a odds (evens.set v (i / 2 - 1))

/-- Add the cell `n` to the `n` cells before it. -/
def push (v : α) : Cells α → Nat → Cells α
  | none, _ => node v none none
  | node a odds evens, n =>
    if n % 2 = 1 then node a (odds.push v (n / 2)) evens
    else node a odds (evens.push v (n / 2 - 1))

/-- Just the cells below `n` are there. -/
def HasSize : Cells α → Nat → Prop
  | none, n => n = 0
  | node _ odds evens, n => 0 < n ∧ odds.HasSize (n / 2) ∧ evens.HasSize ((n - 1) / 2)

theorem HasSize.set {c : Cells α} {n : Nat} (h : c.HasSize n) (v : α) (i : Nat) :
    (c.set v i).HasSize n := by
  induction c generalizing n i with
  | none => exact h
  | node a odds evens ihl ihr =>
    unfold Cells.set
    split
    · exact h
    · split
      · exact ⟨h.1, ihl h.2.1 _, h.2.2⟩
      · exact ⟨h.1, h.2.1, ihr h.2.2 _⟩

theorem HasSize.push {c : Cells α} {n : Nat} (h : c.HasSize n) (v : α) :
    (c.push v n).HasSize (n + 1) := by
  induction c generalizing n with
  | none => obtain rfl : n = 0 := h; exact ⟨by decide, rfl, rfl⟩
  | node a odds evens ihl ihr =>
    obtain ⟨hn, hl, hr⟩ := h
    unfold Cells.push
    split
    · have hs : (n + 1) / 2 = n / 2 + 1 := by omega
      have ht : (n + 1 - 1) / 2 = (n - 1) / 2 := by omega
      exact ⟨by omega, hs ▸ ihl hl, ht ▸ hr⟩
    · have hs : (n + 1) / 2 = n / 2 := by omega
      have ht : (n + 1 - 1) / 2 = n / 2 - 1 + 1 := by omega
      have hu : (n - 1) / 2 = n / 2 - 1 := by omega
      exact ⟨by omega, hs ▸ hl, ht ▸ ihr (hu ▸ hr)⟩

theorem HasSize.get?_eq_none {c : Cells α} {n : Nat} (h : c.HasSize n) {i : Nat} (hi : n ≤ i) :
    c.get? i = .none := by
  induction c generalizing n i with
  | none => rfl
  | node a odds evens ihl ihr =>
    obtain ⟨hn, hl, hr⟩ := h
    unfold get?
    rw [if_neg (by omega)]
    split
    · exact ihl hl (by omega)
    · exact ihr hr (by omega)

theorem HasSize.isSome_get? {c : Cells α} {n : Nat} (h : c.HasSize n) {i : Nat} (hi : i < n) :
    (c.get? i).isSome := by
  induction c generalizing n i with
  | none => obtain rfl : n = 0 := h; omega
  | node a odds evens ihl ihr =>
    obtain ⟨hn, hl, hr⟩ := h
    unfold get?
    split
    · rfl
    · split
      · exact ihl hl (by omega)
      · exact ihr hr (by omega)

theorem HasSize.get?_set {c : Cells α} {n : Nat} (h : c.HasSize n) {i : Nat} (hi : i < n) (v : α)
    (j : Nat) : (c.set v i).get? j = if j = i then some v else c.get? j := by
  induction c generalizing n i j with
  | none => obtain rfl : n = 0 := h; omega
  | node a odds evens ihl ihr =>
    obtain ⟨hn, hl, hr⟩ := h
    unfold Cells.set
    split
    · by_cases hj : j = 0 <;> simp [get?, *]
    · split <;> by_cases hj : j = 0 <;> by_cases hj' : j % 2 = 1
      · omega
      · simp [get?, hj]; omega
      · have he : j / 2 = i / 2 ↔ j = i := by omega
        simp [get?, hj, hj', ihl hl (i := i / 2) (by omega), he]
      · have he : j ≠ i := by omega
        simp [get?, hj, hj', he]
      · omega
      · simp [get?, hj]; omega
      · have he : j ≠ i := by omega
        simp [get?, hj, hj', he]
      · have he : j / 2 - 1 = i / 2 - 1 ↔ j = i := by omega
        simp [get?, hj, hj', ihr hr (i := i / 2 - 1) (by omega), he]

theorem HasSize.get?_push {c : Cells α} {n : Nat} (h : c.HasSize n) (v : α) (j : Nat) :
    (c.push v n).get? j = if j = n then some v else c.get? j := by
  induction c generalizing n j with
  | none =>
    obtain rfl : n = 0 := h
    simp only [Cells.push, get?]
    split <;> simp
  | node a odds evens ihl ihr =>
    obtain ⟨hn, hl, hr⟩ := h
    unfold Cells.push
    split <;> by_cases hj : j = 0 <;> by_cases hj' : j % 2 = 1
    · omega
    · simp [get?, hj]; omega
    · have he : j / 2 = n / 2 ↔ j = n := by omega
      simp [get?, hj, hj', ihl hl, he]
    · have he : j ≠ n := by omega
      simp [get?, hj, hj', he]
    · omega
    · simp [get?, hj]; omega
    · have he : j ≠ n := by omega
      simp [get?, hj, hj', he]
    · have he : j / 2 - 1 = n / 2 - 1 ↔ j = n := by omega
      have hu : (n - 1) / 2 = n / 2 - 1 := by omega
      simp [get?, hj, hj', ihr (hu ▸ hr), he]

theorem ext {c d : Cells α} {n : Nat} (hc : c.HasSize n) (hd : d.HasSize n)
    (h : ∀ i, c.get? i = d.get? i) : c = d := by
  induction c generalizing d n with
  | none =>
    obtain rfl : n = 0 := hc
    cases d with
    | none => rfl
    | node => exact absurd hd.1 (by decide)
  | node a odds evens ihl ihr =>
    cases d with
    | none => obtain rfl : n = 0 := hd; exact absurd hc.1 (by decide)
    | node b odds' evens' =>
      have hab : a = b := by simpa [get?] using h 0
      have hl : odds = odds' := ihl hc.2.1 hd.2.1 fun i => by
        have := h (2 * i + 1)
        have hm : (2 * i + 1) / 2 = i := by omega
        simpa [get?, hm] using this
      have hr : evens = evens' := ihr hc.2.2 hd.2.2 fun i => by
        have := h (2 * i + 2)
        have hm : (2 * i + 2) / 2 - 1 = i := by omega
        simpa [get?, hm] using this
      rw [hab, hl, hr]

end Cells

end KeyedLocks
