import KeyedLocks.Duration.Parser
import KeyedLocks.Duration.Printer
import Mathlib.Algebra.BigOperators.Group.List.Basic
import Mathlib.Tactic.Ring

/-!
# Durations in words are read back

`Duration.parse_render`: what `render` writes, `parse` reads as the same duration. A text that is
read span by span is a list of `Spoken` counts: a number and the name of a unit, which add to the
duration what they are `worth`. `readSpan_spoken` reads one of them, `readSpans_spoken` all, and
`total_parts` says that the parts of a duration are worth the duration. No product and no sum on
the way exceeds 64 bits, since each part fits into what is written.
-/

namespace KeyedLocks.Duration

open Text (isBlank)

/-! ## Characters -/

theorem isDigit_bounds {c : Char} (h : c.isDigit = true) : 48 ≤ c.toNat ∧ c.toNat ≤ 57 := by
  simpa [Char.isDigit, UInt32.le_iff_toNat_le] using h

theorem isAlpha_bounds {c : Char} (h : c.isAlpha = true) :
    (65 ≤ c.toNat ∧ c.toNat ≤ 90) ∨ (97 ≤ c.toNat ∧ c.toNat ≤ 122) := by
  have hval : (decide (c.val ≥ 65 ∧ c.val ≤ 90) || (decide (c.val ≥ 97) && decide (c.val ≤ 122))) =
      true := h
  simpa [UInt32.le_iff_toNat_le] using hval

theorem isBlank_eq_false {c : Char} (h : 33 ≤ c.toNat ∧ c.toNat ≤ 132) : isBlank c = false := by
  simp only [isBlank, Bool.or_eq_false_iff, Bool.and_eq_false_iff, beq_eq_false_iff_ne,
    decide_eq_false_iff_not]
  omega

theorem isBlank_of_isDigit {c : Char} (h : c.isDigit = true) : isBlank c = false :=
  isBlank_eq_false (by have := isDigit_bounds h; omega)

theorem isUnitLetter_bounds {c : Char} (h : isUnitLetter c = true) :
    65 ≤ c.toNat ∧ isBlank c = false := by
  simp only [isUnitLetter, Bool.or_eq_true, beq_iff_eq] at h
  rcases h with h | rfl
  · have := isAlpha_bounds h
    exact ⟨by omega, isBlank_eq_false (by omega)⟩
  · decide

theorem isDigit_of_isUnitLetter {c : Char} (h : isUnitLetter c = true) : c.isDigit = false := by
  have := isUnitLetter_bounds h
  rw [Bool.eq_false_iff]
  intro hd
  have := isDigit_bounds hd
  simp only [isUnitLetter, Bool.or_eq_true, beq_iff_eq] at h
  omega

/-! ## Digits -/

theorem le_ofDigitChars (n : Nat) (ds : List Char) : n ≤ Nat.ofDigitChars 10 ds n := by
  rw [Nat.ofDigitChars_eq_ofDigitChars_zero]
  exact Nat.le_add_right_of_le (Nat.le_mul_of_pos_left n (Nat.pow_pos (by decide)))

theorem readNumber_digits {n : Nat} {ds rest : List Char} (hd : ∀ c ∈ ds, c.isDigit = true)
    (hn : Nat.ofDigitChars 10 ds n < UInt64.size) :
    readNumber n (ds ++ rest) = readNumber (Nat.ofDigitChars 10 ds n) rest := by
  induction ds generalizing n with
  | nil => rfl
  | cons c ds ih =>
    have hv : n * 10 + digitValue c = 10 * n + (c.toNat - '0'.toNat) := by
      rw [digitValue, Nat.mul_comm]
    rw [Nat.ofDigitChars_cons] at hn ⊢
    have hlt := Nat.lt_of_le_of_lt (le_ofDigitChars _ _) hn
    rw [List.cons_append, readNumber, if_pos (hd c (by simp)), hv, if_pos hlt]
    exact ih (fun c' hc' => hd c' (by simp [hc'])) hn

theorem readNumber_unit {n : Nat} {c : Char} {cs : List Char} (hc : isUnitLetter c = true) :
    readNumber n (c :: cs) = .ok (n, c :: cs) := by
  have hd := isDigit_of_isUnitLetter hc
  have hb := (isUnitLetter_bounds hc).2
  simp [readNumber, hd, hb, hc]

/-! ## Sums -/

/-- Nanoseconds of one unit. -/
def TimeUnit.nanos (u : TimeUnit) : Nat := u.worth.1 * nanosPerSecond + u.worth.2

theorem word_eq {n : Nat} (h : n < UInt64.size) : word n = .ok n := if_pos h

/-- A sum below 2^64 seconds is exact, if less than a second of nanoseconds is added. -/
theorem add_eq {d : Duration} {secs nanos : Nat} (hn : nanos < nanosPerSecond)
    (h : d.nanos + secs * nanosPerSecond + nanos < UInt64.size * nanosPerSecond) :
    d.add secs nanos = .ok ⟨_, h⟩ := by
  have hs := d.subsecNanos_lt
  have hd := d.nanos_eq
  have hcarry : d.seconds + secs +
      (if d.subsecNanos + nanos > nanosPerSecond then (d.subsecNanos + nanos) / nanosPerSecond
        else 0) < UInt64.size := by
    unfold nanosPerSecond UInt64.size at *
    split <;> omega
  have hsum : d.subsecNanos + nanos < UInt64.size := by
    unfold nanosPerSecond UInt64.size at *
    omega
  simp only [add, word_eq hsum, bind, Except.bind, word_eq hcarry]
  exact dif_pos h

theorem addUnits_eq {d : Duration} {u : TimeUnit} {n : Nat} (hn : n * u.worth.2 < nanosPerSecond)
    (h : d.nanos + n * u.nanos < UInt64.size * nanosPerSecond) :
    d.addUnits u n none = .ok ⟨_, h⟩ := by
  have hsplit : d.nanos + n * u.worth.1 * nanosPerSecond + n * u.worth.2 =
      d.nanos + n * u.nanos := by
    rw [TimeUnit.nanos, Nat.mul_add, ← Nat.mul_assoc, Nat.add_assoc]
  have hsecs : n * u.worth.1 < UInt64.size := by
    unfold nanosPerSecond UInt64.size at *
    omega
  have hnanos : n * u.worth.2 < UInt64.size := Nat.lt_trans hn (by decide)
  simp only [addUnits, word_eq hsecs, word_eq hnanos, bind, Except.bind, add_eq hn (hsplit ▸ h)]
  simp only [hsplit]

/-! ## Spans -/

/-- A count and the name of its unit in the characters they are written with. -/
def spell (part : Nat × String) : List Char := Nat.toDigits 10 part.1 ++ part.2.toList

/-- Nanoseconds that a count is worth. -/
def worth (part : Nat × String) : Nat := part.1 * ((TimeUnit.ofName? part.2).elim 0 TimeUnit.nanos)

theorem worth_of_name {n : Nat} {unit : String} {u : TimeUnit}
    (h : TimeUnit.ofName? unit = some u) : worth (n, unit) = n * u.nanos := by
  rw [worth, h]
  rfl

/-- A count of a unit, in letters that no digit or blank is among. Less than a second of it is
counted in nanoseconds. -/
structure Spoken (part : Nat × String) (u : TimeUnit) : Prop where
  unit : TimeUnit.ofName? part.2 = some u
  letters : ∀ c ∈ part.2.toList, isUnitLetter c = true
  nanos_lt : part.1 * u.worth.2 < nanosPerSecond

namespace Spoken

variable {part : Nat × String} {u : TimeUnit} {d : Duration}

theorem worth_eq (h : Spoken part u) : worth part = part.1 * u.nanos := worth_of_name h.unit

theorem exists_letter (h : Spoken part u) :
    ∃ c cs, part.2.toList = c :: cs ∧ isUnitLetter c = true := by
  cases hname : part.2.toList with
  | nil =>
    have hu := h.unit
    rw [String.toList_eq_nil_iff.mp hname] at hu
    cases (show TimeUnit.ofName? "" = none by decide).symm.trans hu
  | cons c cs => exact ⟨c, cs, rfl, h.letters c (by rw [hname]; simp)⟩

theorem count_lt (h : Spoken part u) (hlt : worth part < UInt64.size * nanosPerSecond) :
    part.1 < UInt64.size := by
  have hn := h.nanos_lt
  rw [h.worth_eq] at hlt
  unfold TimeUnit.nanos nanosPerSecond UInt64.size at *
  cases u <;> simp only [TimeUnit.worth] at * <;> omega

end Spoken

theorem dropWhile_of_isBlank {rest : List Char} (h : rest.head?.all isBlank = true) :
    rest.dropWhile isUnitLetter = rest ∧ rest.takeWhile isUnitLetter = [] := by
  cases rest with
  | nil => exact ⟨rfl, rfl⟩
  | cons c cs =>
    have hc : ¬isUnitLetter c = true := by
      intro hl
      rw [List.head?_cons, Option.all_some, (isUnitLetter_bounds hl).2] at h
      cases h
    exact ⟨List.dropWhile_cons_of_neg hc, List.takeWhile_cons_of_neg hc⟩

theorem readSpan_spoken {part : Nat × String} {u : TimeUnit} {d : Duration} {c : Char}
    {ds rest : List Char} (h : Spoken part u) (hdigits : Nat.toDigits 10 part.1 = c :: ds)
    (hrest : rest.head?.all isBlank = true)
    (hlt : d.nanos + worth part < UInt64.size * nanosPerSecond) :
    readSpan d (digitValue c) (ds ++ part.2.toList ++ rest) = .ok (⟨_, hlt⟩, rest) := by
  obtain ⟨l, ls, hname, hl⟩ := h.exists_letter
  have hall : ∀ c' ∈ c :: ds, c'.isDigit = true := fun c' hc' =>
    Nat.isDigit_of_mem_toDigits (b := 10) (by decide) (by decide) (hdigits ▸ hc')
  have hvalue : Nat.ofDigitChars 10 ds (digitValue c) = part.1 := by
    have := Nat.ofDigitChars_ten_toDigits (n := part.1)
    rwa [hdigits, Nat.ofDigitChars_cons, Nat.mul_zero, Nat.zero_add] at this
  have hnumber : readNumber (digitValue c) (ds ++ part.2.toList ++ rest) =
      .ok (part.1, part.2.toList ++ rest) := by
    have hcount : Nat.ofDigitChars 10 ds (digitValue c) < UInt64.size := by
      rw [hvalue]
      exact h.count_lt (by omega)
    rw [List.append_assoc, readNumber_digits (fun c' hc' => hall c' (by simp [hc'])) hcount, hvalue,
      hname]
    exact readNumber_unit hl
  have hfraction : readFraction? (part.2.toList ++ rest) = .ok (none, part.2.toList ++ rest) := by
    have hne : l ≠ '.' := by
      rintro rfl
      exact absurd hl (by decide)
    rw [hname, List.cons_append]
    unfold readFraction?
    split
    · next heq => exact absurd (List.cons.inj heq).1 hne
    · rfl
  have hdrop : (part.2.toList ++ rest).dropWhile isUnitLetter = rest := by
    rw [List.dropWhile_append_of_pos h.letters, (dropWhile_of_isBlank hrest).1]
  have htake : (part.2.toList ++ rest).takeWhile isUnitLetter = part.2.toList := by
    rw [List.takeWhile_append_of_pos h.letters, (dropWhile_of_isBlank hrest).2, List.append_nil]
  have hend : (rest.head?.all fun c => c.isDigit || isBlank c) = true := by
    cases rest with
    | nil => rfl
    | cons r rs =>
      simp only [List.head?_cons, Option.all_some] at hrest ⊢
      rw [hrest, Bool.or_true]
  have hadd : d.addUnits u part.1 none = .ok ⟨_, hlt⟩ := by
    rw [addUnits_eq h.nanos_lt (by rw [← h.worth_eq]; exact hlt)]
    simp only [h.worth_eq]
  simp only [readSpan, hnumber, hfraction, bind, Except.bind, hdrop, htake, hend, if_true,
    String.ofList_toList, h.unit, hadd]

/-- What `readSpans` does, its recursion apart. -/
theorem readSpans_eq (d : Duration) (cs : List Char) :
    readSpans d cs =
      match cs.dropWhile isBlank with
      | [] => .ok d
      | c :: rest =>
        if c.isDigit then (readSpan d (digitValue c) rest).bind fun (d, rest) => readSpans d rest
        else .error .invalid := by
  rw [readSpans]
  split
  · next h => rw [h]
  · next c rest h =>
    rw [h]
    cases hs : readSpan d (digitValue c) rest <;> simp [Except.bind, hs]

theorem readSpans_blank {d : Duration} {c : Char} {cs : List Char} (hc : isBlank c = true) :
    readSpans d (c :: cs) = readSpans d cs := by
  rw [readSpans_eq, readSpans_eq d cs, List.dropWhile_cons_of_pos hc]

theorem readSpans_digit {d d' : Duration} {c : Char} {cs rest : List Char}
    (hc : c.isDigit = true) (h : readSpan d (digitValue c) cs = .ok (d', rest)) :
    readSpans d (c :: cs) = readSpans d' rest := by
  rw [readSpans_eq, List.dropWhile_cons_of_neg (by simp [isBlank_of_isDigit hc])]
  simp [hc, h, Except.bind]

/-- The nanoseconds of all spans. -/
def total (ps : List (Nat × String)) : Nat := (ps.map worth).sum

theorem total_cons (p : Nat × String) (ps : List (Nat × String)) :
    total (p :: ps) = worth p + total ps := by
  rw [total, List.map_cons, List.sum_cons]
  rfl

theorem readSpans_spoken {ps : List (Nat × String)} {d : Duration}
    (hs : ∀ p ∈ ps, ∃ u, Spoken p u)
    (hlt : d.nanos + total ps < UInt64.size * nanosPerSecond) :
    readSpans d (ps.flatMap fun p => ' ' :: spell p) = .ok ⟨_, hlt⟩ := by
  induction ps generalizing d with
  | nil => rw [List.flatMap_nil, readSpans_eq]; rfl
  | cons p ps ih =>
    obtain ⟨u, hu⟩ := hs p (by simp)
    rw [total_cons] at hlt
    have hrest : (ps.flatMap fun p => ' ' :: spell p).head?.all isBlank = true := by
      cases ps with
      | nil => rfl
      | cons q qs => rfl
    obtain ⟨c, ds, hdigits⟩ := List.exists_cons_of_ne_nil (Nat.toDigits_ne_nil (n := p.1) (b := 10))
    have hmem : c ∈ Nat.toDigits 10 p.1 := by rw [hdigits]; simp
    have hc : c.isDigit = true := Nat.isDigit_of_mem_toDigits (by decide) (by decide) hmem
    have hspan := readSpan_spoken (d := d) hu hdigits hrest (by omega)
    rw [List.flatMap_cons, List.cons_append, readSpans_blank (by decide), spell, hdigits,
      List.cons_append, List.cons_append, readSpans_digit hc hspan,
      ih (fun q hq => hs q (by simp [hq])) (by simp only; omega)]
    simp only [total_cons, Nat.add_assoc]

/-! ## The parts of a duration -/

theorem spoken_of_name {n : Nat} {unit : String} {u : TimeUnit}
    (h : TimeUnit.ofName? unit = some u) (hl : unit.toList.all isUnitLetter = true)
    (hn : n * u.worth.2 < nanosPerSecond) : Spoken (n, unit) u :=
  ⟨h, List.all_eq_true.mp hl, hn⟩

theorem spoken_counted {n : Nat} {unit : String} {u : TimeUnit}
    (h : TimeUnit.ofName? unit = some u) (hs : TimeUnit.ofName? (unit ++ "s") = some u)
    (hl : unit.toList.all isUnitLetter = true) (hn : u.worth.2 = 0) :
    Spoken (counted n unit) u := by
  have hn' : n * u.worth.2 < nanosPerSecond := by
    rw [hn, Nat.mul_zero]
    decide
  have hl' : (unit ++ "s").toList.all isUnitLetter = true := by
    rw [String.toList_append, List.all_append, hl]
    rfl
  unfold counted
  split
  · exact spoken_of_name hs hl' hn'
  · exact spoken_of_name h hl hn'

theorem below_second {n k : Nat} (hn : n < 1000) (hk : k ≤ 1000) : n * k < nanosPerSecond :=
  lt_of_lt_of_le (Nat.mul_lt_mul_of_lt_of_le hn hk (by decide)) (by decide)

theorem spoken_of_mem_parts {d : Duration} {p : Nat × String} (hp : p ∈ d.parts) :
    ∃ u, Spoken p u := by
  have hsecond : ∀ n, n * 0 < nanosPerSecond := fun n => by
    rw [Nat.mul_zero]
    decide
  have hms : d.subsecNanos / 1000000 * 1000000 < nanosPerSecond :=
    lt_of_le_of_lt (Nat.div_mul_le_self d.subsecNanos 1000000) d.subsecNanos_lt
  have hus : d.subsecNanos / 1000 % 1000 * 1000 < nanosPerSecond :=
    below_second (Nat.mod_lt _ (by decide)) (by decide)
  have hns : d.subsecNanos % 1000 * 1 < nanosPerSecond :=
    below_second (Nat.mod_lt _ (by decide)) (by decide)
  simp only [parts, List.mem_cons, List.not_mem_nil, or_false] at hp
  rcases hp with rfl | rfl | rfl | rfl | rfl | rfl | rfl | rfl | rfl
  · exact ⟨.year, spoken_counted (by decide) (by decide) (by decide) rfl⟩
  · exact ⟨.month, spoken_counted (by decide) (by decide) (by decide) rfl⟩
  · exact ⟨.day, spoken_counted (by decide) (by decide) (by decide) rfl⟩
  · exact ⟨.hour, spoken_of_name (by decide) (by decide) (hsecond _)⟩
  · exact ⟨.minute, spoken_of_name (by decide) (by decide) (hsecond _)⟩
  · exact ⟨.second, spoken_of_name (by decide) (by decide) (hsecond _)⟩
  · exact ⟨.millisecond, spoken_of_name (by decide) (by decide) hms⟩
  · exact ⟨.microsecond, spoken_of_name (by decide) (by decide) hus⟩
  · exact ⟨.nanosecond, spoken_of_name (by decide) (by decide) hns⟩

/-- Seconds are split from years on: what is left of a unit goes to the next smaller one. -/
theorem seconds_split (s : Nat) :
    s / 31557600 * 31557600 + (s % 31557600 / 2630016 * 2630016 +
      (s % 31557600 % 2630016 / 86400 * 86400 +
        (s % 31557600 % 2630016 % 86400 / 3600 * 3600 +
          (s % 31557600 % 2630016 % 86400 % 3600 / 60 * 60 +
            s % 31557600 % 2630016 % 86400 % 60)))) = s := by
  omega

theorem nanos_split (n : Nat) :
    n / 1000000 * 1000000 + (n / 1000 % 1000 * 1000 + n % 1000) = n := by
  omega

theorem worth_counted {n : Nat} {unit : String} {u : TimeUnit}
    (h : TimeUnit.ofName? unit = some u) (hs : TimeUnit.ofName? (unit ++ "s") = some u) :
    worth (counted n unit) = n * u.nanos := by
  unfold counted
  split
  · exact worth_of_name hs
  · exact worth_of_name h

/-- Seconds come out of the first six units and nanoseconds out of the last three. The length of a
second is a variable here, since tactics reckon too long with its digits. -/
theorem total_units (years months days hours minutes seconds millis micros nanos : Nat)
    {second : Nat} (hsecond : nanosPerSecond = second) :
    total [counted years "year", counted months "month", counted days "day", (hours, "h"),
      (minutes, "m"), (seconds, "s"), (millis, "ms"), (micros, "us"), (nanos, "ns")] =
      (years * 31557600 + (months * 2630016 + (days * 86400 + (hours * 3600 + (minutes * 60 +
        seconds))))) * second + (millis * 1000000 + (micros * 1000 + nanos)) := by
  rw [total_cons, total_cons, total_cons, total_cons, total_cons, total_cons, total_cons,
    total_cons, total_cons, worth_counted (u := .year) (by decide) (by decide),
    worth_counted (u := .month) (by decide) (by decide),
    worth_counted (u := .day) (by decide) (by decide), worth_of_name (u := .hour) (by decide),
    worth_of_name (u := .minute) (by decide), worth_of_name (u := .second) (by decide),
    worth_of_name (u := .millisecond) (by decide), worth_of_name (u := .microsecond) (by decide),
    worth_of_name (u := .nanosecond) (by decide)]
  unfold TimeUnit.nanos
  rw [hsecond]
  simp only [TimeUnit.worth, total, List.map_nil, List.sum_nil]
  ring

theorem total_parts (d : Duration) : total d.parts = d.nanos := by
  rw [parts, total_units _ _ _ _ _ _ _ _ _ rfl, nanos_split d.subsecNanos]
  exact (congrArg (· * nanosPerSecond + d.subsecNanos) (seconds_split d.seconds)).trans
    d.nanos_eq.symm

theorem total_filter (ps : List (Nat × String)) : total (ps.filter (·.1 ≠ 0)) = total ps := by
  induction ps with
  | nil => rfl
  | cons p ps ih =>
    by_cases hp : p.1 = 0
    · rw [List.filter_cons_of_neg (by simp [hp]), ih, total_cons, worth, hp, Nat.zero_mul,
        Nat.zero_add]
    · rw [List.filter_cons_of_pos (by simp [hp]), total_cons, total_cons, ih]

/-! ## The text of a duration -/

theorem toList_text (p : Nat × String) : (toString p.1 ++ p.2).toList = spell p := by
  rw [String.toList_append, spell]
  exact congrArg (· ++ p.2.toList) Nat.toList_repr

theorem blank_intercalate {ps : List (Nat × String)} (h : ps ≠ []) :
    ' ' :: (" ".intercalate (ps.map fun p => toString p.1 ++ p.2)).toList =
      ps.flatMap fun p => ' ' :: spell p := by
  rw [String.toList_intercalate, List.map_map]
  simp only [Function.comp_def, toList_text]
  induction ps with
  | nil => exact absurd rfl h
  | cons p ps ih =>
    cases ps with
    | nil => simp
    | cons q qs =>
      rw [List.map_cons, List.map_cons, List.intercalate_cons_cons, ← List.map_cons,
        List.append_assoc, List.flatMap_cons (x := p), ← ih (by simp)]
      rfl

/-- What is written of a duration: at least one span, and all of them are worth the duration. -/
theorem exists_spans (d : Duration) :
    ∃ ps : List (Nat × String), ps ≠ [] ∧ (∀ p ∈ ps, ∃ u, Spoken p u) ∧ total ps = d.nanos ∧
      ' ' :: d.render.toList = ps.flatMap fun p => ' ' :: spell p := by
  by_cases hd : d.nanos = 0
  · refine ⟨[(0, "s")], by simp, ?_, by rw [hd]; rfl, ?_⟩
    · intro p hp
      rw [List.mem_singleton.mp hp]
      exact ⟨.second, spoken_of_name (by decide) (by decide) (by decide)⟩
    · rw [render, if_pos hd]
      rfl
  · have htotal : total (d.parts.filter (·.1 ≠ 0)) = d.nanos := by
      rw [total_filter, total_parts]
    have hne : d.parts.filter (·.1 ≠ 0) ≠ [] := by
      intro hnil
      rw [hnil] at htotal
      exact hd htotal.symm
    refine ⟨_, hne, ?_, htotal, ?_⟩
    · exact fun p hp => spoken_of_mem_parts (List.mem_of_mem_filter hp)
    · rw [render, if_neg hd, ← blank_intercalate hne]

/-- **Reading gives back what was written**, whatever the duration. -/
theorem parse_render (d : Duration) : parse d.render = .ok d := by
  obtain ⟨ps, hne, hs, htotal, hspans⟩ := d.exists_spans
  have hletter : ∃ c ∈ d.render.toList, isUnitLetter c = true := by
    obtain ⟨p, hp⟩ := List.exists_mem_of_ne_nil ps hne
    obtain ⟨u, hu⟩ := hs p hp
    obtain ⟨c, cs, hname, hc⟩ := hu.exists_letter
    have hmem : c ∈ ' ' :: d.render.toList := by
      rw [hspans]
      exact List.mem_flatMap.mpr ⟨p, hp, by simp [spell, hname]⟩
    rcases List.mem_cons.mp hmem with rfl | hmem
    · exact absurd hc (by decide)
    · exact ⟨c, hmem, hc⟩
  obtain ⟨c, hc, hl⟩ := hletter
  have hzero : d.render ≠ "0" := by
    intro h
    rw [h] at hc
    rw [List.mem_singleton.mp hc] at hl
    exact absurd hl (by decide)
  have hblank : ¬(d.render.toList.all isBlank = true) := by
    intro h
    rw [List.all_eq_true] at h
    exact Bool.false_ne_true ((isUnitLetter_bounds hl).2.symm.trans (h c hc))
  have hlt : zero.nanos + total ps < UInt64.size * nanosPerSecond := by
    rw [htotal]
    exact (Nat.zero_add _).symm ▸ d.nanos_lt
  rw [parse, if_neg hzero, if_neg hblank, ← readSpans_blank (c := ' ') (by decide), hspans,
    readSpans_spoken hs hlt]
  exact congrArg Except.ok (ext_nanos ((Nat.zero_add _).trans htotal))

theorem mem_render {d : Duration} {c : Char} (hc : c ∈ d.render.toList) :
    c.isDigit = true ∨ isUnitLetter c = true ∨ c = ' ' := by
  obtain ⟨ps, -, hs, -, hspans⟩ := d.exists_spans
  have hmem : c ∈ ps.flatMap fun p => ' ' :: spell p := by
    rw [← hspans]
    exact List.mem_cons_of_mem _ hc
  obtain ⟨p, hp, hcp⟩ := List.mem_flatMap.mp hmem
  obtain ⟨u, hu⟩ := hs p hp
  rcases List.mem_cons.mp hcp with rfl | hcp
  · exact .inr (.inr rfl)
  · rcases List.mem_append.mp hcp with hcp | hcp
    · exact .inl (Nat.isDigit_of_mem_toDigits (b := 10) (by decide) (by decide) hcp)
    · exact .inr (.inl (hu.letters c hcp))

end KeyedLocks.Duration
