import KeyedLocks.Proofs.Duration
import KeyedLocks.Toml.Parser

/-!
# TOML in its simplest form is read back

A `setting` is a line `name = literal`. `Denotes literal x` says that the literal is read as the
value `x` where its line ends; it holds of decimal integers (`denotes_count`, `denotes_minus_one`)
and of plain strings between quotes (`denotes_string`). `statements_setting` reads one setting: a
new key is put after the others.
-/

namespace KeyedLocks.Toml

/-! ## Decimal digits -/

theorem head_toDigits {n : Nat} (hn : 0 < n) : (Nat.toDigits 10 n).head? ≠ some '0' := by
  induction n using Nat.strongRecOn with
  | ind n ih =>
    rw [Nat.toDigits_eq_if (by decide)]
    split
    · next h =>
      have hall : ∀ k : Fin 10, 0 < k.val → Nat.digitChar k.val ≠ '0' := by decide
      rw [List.head?_cons]
      exact fun heq => hall ⟨n, h⟩ hn (Option.some.inj heq)
    · next h =>
      rw [List.head?_append_of_ne_nil _ Nat.toDigits_ne_nil]
      exact ih (n / 10) (Nat.div_lt_self hn (by decide)) (by omega)

theorem numeral_eq {ds : List Char} (h : ∀ c ∈ ds, c.isDigit = true) :
    numeral 10 ds = Nat.ofDigitChars 10 ds 0 := by
  rw [numeral, Nat.ofDigitChars]
  refine List.foldl_ext _ _ _ fun n c hc => ?_
  rw [hexValue, if_pos (h c hc), Option.getD_some]

theorem digits_cons {c : Char} {cs : List Char} (hc : c.isDigit = true)
    (hcs : cs.head? ≠ some '_') :
    digits Char.isDigit (c :: cs) =
      match digits Char.isDigit cs with
      | some (ds, rest) => some (c :: ds, rest)
      | none => some ([c], cs) := by
  cases cs with
  | nil => simp [digits, hc]
  | cons d cs =>
    have hd (cs' : List Char) : d :: cs = '_' :: cs' → False := by
      rintro ⟨⟩
      exact hcs rfl
    exact (digits.eq_3 _ c (d :: cs) hd).trans (if_pos hc)

theorem digits_eq_none {c : Char} {cs : List Char} (hc : c.isDigit = false) :
    digits Char.isDigit (c :: cs) = none := by
  unfold digits
  split <;> simp_all

theorem digits_append {ds rest : List Char} (hd : ∀ c ∈ ds, c.isDigit = true) (hne : ds ≠ []) :
    digits Char.isDigit (ds ++ '\n' :: rest) = some (ds, '\n' :: rest) := by
  induction ds with
  | nil => exact absurd rfl hne
  | cons c ds ih =>
    cases ds with
    | nil =>
      rw [List.cons_append, List.nil_append, digits_cons (hd c (by simp)) (by simp),
        digits_eq_none (by decide)]
    | cons c' ds =>
      have hc' : c' ≠ '_' := by
        rintro rfl
        exact absurd (hd '_' (by simp)) (by decide)
      rw [List.cons_append, digits_cons (hd c (by simp)) (by simpa using hc'),
        ih (fun x hx => hd x (by simp [hx])) (by simp)]

theorem decimalDigits_append {ds rest : List Char} (hd : ∀ c ∈ ds, c.isDigit = true)
    (hne : ds ≠ []) (hzero : ds.head? ≠ some '0') :
    decimalDigits (ds ++ '\n' :: rest) = some (ds, '\n' :: rest) := by
  cases ds with
  | nil => exact absurd rfl hne
  | cons c ds =>
    rw [List.cons_append, decimalDigits, ← List.cons_append]
    · exact digits_append hd hne
    · rintro _ ⟨⟩
      exact hzero rfl

/-! ## Numbers that are no moments -/

theorem mark_of_ne {c d : Char} {cs : List Char} (h : d ≠ c) : mark c (d :: cs) = none := if_neg h

theorem field_eq_some {count lo hi v : Nat} {cs rest : List Char}
    (h : field count lo hi cs = some (v, rest)) :
    ∃ ds, cs = ds ++ rest ∧ ds.length = count ∧ ∀ c ∈ ds, c.isDigit = true := by
  simp only [field, Option.ite_none_right_eq_some, Option.some.injEq, Prod.mk.injEq] at h
  obtain ⟨⟨hlen, hd, -⟩, -, rfl⟩ := h
  exact ⟨cs.take count, (List.take_append_drop ..).symm, hlen, List.all_eq_true.mp hd⟩

/-- After the digits of a number stands the end of the line, no mark of a date or a time. -/
theorem mark_of_field {count lo hi v : Nat} {ds rest rest' : List Char} {c : Char}
    (hd : ∀ c ∈ ds, c.isDigit = true) (hc : c.isDigit = false) (hnl : c ≠ '\n')
    (h : field count lo hi (ds ++ '\n' :: rest) = some (v, rest')) : mark c rest' = none := by
  obtain ⟨fs, heq, -, hfs⟩ := field_eq_some h
  cases rest' with
  | nil => rfl
  | cons x rest' =>
    apply mark_of_ne
    rintro rfl
    have hdrop := congrArg (List.dropWhile Char.isDigit) heq
    rw [List.dropWhile_append_of_pos hd, List.dropWhile_append_of_pos hfs,
      List.dropWhile_cons_of_neg (by decide), List.dropWhile_cons_of_neg (by simp [hc])] at hdrop
    exact hnl (List.cons.inj hdrop).1.symm

theorem field_eq_none {count lo hi : Nat} {c : Char} {cs : List Char} (hc : c.isDigit = false)
    (hcount : 0 < count) : field count lo hi (c :: cs) = none := by
  cases h : field count lo hi (c :: cs) with
  | none => rfl
  | some r =>
    obtain ⟨ds, heq, hlen, hd⟩ := field_eq_some h
    cases ds with
    | nil => exact absurd hlen.symm (Nat.ne_of_gt hcount)
    | cons d ds =>
      rw [(List.cons.inj heq).1, hd d (by simp)] at hc
      cases hc

theorem moment_digits {ds rest : List Char} (hd : ∀ c ∈ ds, c.isDigit = true) :
    moment (ds ++ '\n' :: rest) = none := by
  have hdate : date? (ds ++ '\n' :: rest) = none := by
    unfold date?
    cases h : field 4 0 9999 (ds ++ '\n' :: rest) with
    | none => rfl
    | some r => simp [mark_of_field (c := '-') hd (by decide) (by decide) h]
  have htime : time? (ds ++ '\n' :: rest) = none := by
    unfold time?
    cases h : field 2 0 23 (ds ++ '\n' :: rest) with
    | none => rfl
    | some r => simp [mark_of_field (c := ':') hd (by decide) (by decide) h]
  rw [moment, hdate, htime]

theorem moment_eq_none {c : Char} {cs : List Char} (hc : c.isDigit = false) :
    moment (c :: cs) = none := by
  have hdate : date? (c :: cs) = none := by
    rw [date?, field_eq_none hc (by decide)]
    rfl
  have htime : time? (c :: cs) = none := by
    rw [time?, field_eq_none hc (by decide)]
    rfl
  rw [moment, hdate, htime]

/-! ## Integers -/

/-- A sign, or none, and digits that do not begin with a zero. -/
structure Spells (cs : List Char) (negative : Bool) (ds : List Char) : Prop where
  sign : ∀ rest, sign (cs ++ rest) = (negative, ds ++ rest)
  digits : ∀ c ∈ ds, c.isDigit = true
  nonempty : ds ≠ []
  zero : ds.head? ≠ some '0'

theorem spells_count {n : Nat} (hn : 0 < n) :
    Spells (Nat.toDigits 10 n) false (Nat.toDigits 10 n) where
  sign rest := by
    obtain ⟨c, ds, h⟩ := List.exists_cons_of_ne_nil (Nat.toDigits_ne_nil (n := n) (b := 10))
    have hc : c.isDigit = true :=
      Nat.isDigit_of_mem_toDigits (b := 10) (n := n) (by decide) (by decide) (by rw [h]; simp)
    rw [h, List.cons_append]
    unfold sign
    split
    · next heq => rw [(List.cons.inj heq).1] at hc; exact absurd hc (by decide)
    · next heq => rw [(List.cons.inj heq).1] at hc; exact absurd hc (by decide)
    · rfl
  digits _ hc := Nat.isDigit_of_mem_toDigits (by decide) (by decide) hc
  nonempty := Nat.toDigits_ne_nil
  zero := head_toDigits hn

theorem spells_minus_one : Spells ['-', '1'] true ['1'] where
  sign _ := rfl
  digits := by simp
  nonempty := by simp
  zero := by simp

namespace Spells

variable {cs ds rest : List Char} {negative : Bool}

theorem head (h : Spells cs negative ds) : (cs ++ '\n' :: rest).head? ≠ some '0' := by
  intro hhead
  have hs := h.sign ('\n' :: rest)
  cases heq : cs ++ '\n' :: rest with
  | nil => rw [heq] at hhead; cases hhead
  | cons c cs' =>
    rw [heq] at hhead hs
    cases hhead
    have hz := h.zero
    obtain ⟨d, ds', hds⟩ := List.exists_cons_of_ne_nil h.nonempty
    rw [hds] at hz hs
    exact hz (congrArg some (List.cons.inj (Prod.mk.inj hs).2).1.symm)

theorem float_eq_none (h : Spells cs negative ds) : float (cs ++ '\n' :: rest) = none := by
  have hread : decimalDigits (ds ++ '\n' :: rest) = some (ds, '\n' :: rest) :=
    decimalDigits_append h.digits h.nonempty h.zero
  have hdecimal : decimalFloat (cs ++ '\n' :: rest) = none := by
    simp [decimalFloat, h.sign, hread, fraction?, exponent?]
  have hspecial : special? negative (ds ++ '\n' :: rest) = none := by
    obtain ⟨d, ds', hds⟩ := List.exists_cons_of_ne_nil h.nonempty
    have hd := h.digits d (by rw [hds]; simp)
    rw [hds, List.cons_append]
    unfold special?
    split
    · next heq => rw [(List.cons.inj heq).1] at hd; exact absurd hd (by decide)
    · next heq => rw [(List.cons.inj heq).1] at hd; exact absurd hd (by decide)
    · rfl
  rw [float, hdecimal, h.sign, Option.none_or]
  exact hspecial

theorem integer_eq (h : Spells cs negative ds) {n : Int}
    (hn : (if negative then -(Nat.ofDigitChars 10 ds 0 : Int) else Nat.ofDigitChars 10 ds 0) = n)
    (hlo : Int64.minValue.toInt ≤ n) (hhi : n ≤ Int64.maxValue.toInt) :
    integer (cs ++ '\n' :: rest) = some (Int64.ofInt n, '\n' :: rest) := by
  have hhead : (cs ++ '\n' :: rest).head? ≠ some '0' := h.head
  have hread : decimalDigits (ds ++ '\n' :: rest) = some (ds, '\n' :: rest) :=
    decimalDigits_append h.digits h.nonempty h.zero
  have hword : word n = some (Int64.ofInt n) := if_pos ⟨hlo, hhi⟩
  unfold integer
  split
  · next heq => rw [heq] at hhead; exact absurd rfl hhead
  · next heq => rw [heq] at hhead; exact absurd rfl hhead
  · next heq => rw [heq] at hhead; exact absurd rfl hhead
  · simp [h.sign, hread, numeral_eq h.digits, hn, hword]

end Spells

/-! ## Strings -/

/-- Characters that stand for themselves between quotes. -/
def isPlain (c : Char) : Bool := isComment c && c != '"' && c != '\\'

theorem basicBody_plain {cs rest : List Char} (h : ∀ c ∈ cs, isPlain c = true) :
    basicBody (cs ++ '"' :: rest) = some (cs, rest) := by
  induction cs with
  | nil => rw [List.nil_append, basicBody]
  | cons c cs ih =>
    have hc := h c (by simp)
    simp only [isPlain, Bool.and_eq_true, bne_iff_ne] at hc
    obtain ⟨⟨hcomment, hquote⟩, hslash⟩ := hc
    rw [List.cons_append, basicBody]
    · simp [hcomment, hslash, ih fun x hx => h x (by simp [hx])]
    all_goals simp_all

theorem string_plain {cs rest : List Char} (h : ∀ c ∈ cs, isPlain c = true) :
    string ('"' :: (cs ++ '"' :: '\n' :: rest)) = some (String.ofList cs, '\n' :: rest) := by
  unfold string
  split
  · next heq =>
    exfalso
    cases cs with
    | nil => simp at heq
    | cons c cs =>
      have hc := h c (by simp)
      simp only [List.cons_append, List.cons.injEq, true_and] at heq
      rw [heq.1] at hc
      exact absurd hc (by decide)
  · next heq => cases (List.cons.inj heq).1
  · simp [lineString, basicBody_plain h]

/-! ## Values -/

/-- A literal that is read as a value where its line ends. -/
structure Denotes (literal : List Char) (x : Item) : Prop where
  head : ∃ c cs, literal = c :: cs ∧ isWs c = false
  value : ∀ size rest, value size nestingLimit (literal ++ '\n' :: rest) = some (x, '\n' :: rest)

theorem value_scalar {size depth : Nat} {c : Char} {cs : List Char} (ha : c ≠ '[') (ht : c ≠ '{') :
    value size depth (c :: cs) = scalar (c :: cs) := by
  unfold value
  split
  · next heq => exact absurd (List.cons.inj heq).1 ha
  · next heq => exact absurd (List.cons.inj heq).1 ht
  · rfl

theorem scalar_number {c : Char} {cs : List Char} (hc : c.isDigit = true ∨ c = '-')
    (hm : moment (c :: cs) = none) (hf : float (c :: cs) = none) :
    scalar (c :: cs) = (integer (c :: cs)).map fun (n, rest) => (.integer n, rest) := by
  have hother : ∀ d, d.isDigit = false → d ≠ '-' → c ≠ d := by
    rintro d hd hminus rfl
    rcases hc with hc | rfl
    · rw [hc] at hd; cases hd
    · exact hminus rfl
  simp only [scalar, List.head?_cons, beq_iff_eq, Bool.or_eq_true]
  rw [if_neg, if_neg, hm, hf, Option.map_none, Option.map_none, Option.none_or, Option.none_or]
  · rintro (h | h)
    · exact hother 't' (by decide) (by decide) h
    · exact hother 'f' (by decide) (by decide) h
  · rintro (h | h)
    · exact hother '"' (by decide) (by decide) h
    · exact hother '\'' (by decide) (by decide) h

theorem Spells.denotes {cs ds : List Char} {negative : Bool} {c : Char} {n : Int}
    (h : Spells (c :: cs) negative ds) (hc : c.isDigit = true ∨ c = '-')
    (hm : ∀ rest, moment (c :: cs ++ '\n' :: rest) = none)
    (hn : (if negative then -(Nat.ofDigitChars 10 ds 0 : Int) else Nat.ofDigitChars 10 ds 0) = n)
    (hlo : Int64.minValue.toInt ≤ n) (hhi : n ≤ Int64.maxValue.toInt) :
    Denotes (c :: cs) (.integer (Int64.ofInt n)) where
  head := by
    refine ⟨c, cs, rfl, ?_⟩
    rw [Bool.eq_false_iff]
    intro hws
    simp only [isWs, Bool.or_eq_true, beq_iff_eq] at hws
    rcases hws with rfl | rfl
    · rcases hc with hc | hc <;> exact absurd hc (by decide)
    · rcases hc with hc | hc <;> exact absurd hc (by decide)
  value size rest := by
    have hnot : c ≠ '[' ∧ c ≠ '{' := by
      constructor
      · rintro rfl
        rcases hc with hc | hc <;> exact absurd hc (by decide)
      · rintro rfl
        rcases hc with hc | hc <;> exact absurd hc (by decide)
    have hm := hm rest
    have hf : float (c :: cs ++ '\n' :: rest) = none := h.float_eq_none
    rw [List.cons_append] at hm hf ⊢
    rw [value_scalar hnot.1 hnot.2, scalar_number hc hm hf, ← List.cons_append,
      h.integer_eq hn hlo hhi]
    rfl

theorem denotes_count {n : Nat} (hn : 0 < n) (hlt : n < 2 ^ 63) :
    Denotes (Nat.toDigits 10 n) (.integer (Int64.ofInt n)) := by
  obtain ⟨c, ds, h⟩ := List.exists_cons_of_ne_nil (Nat.toDigits_ne_nil (n := n) (b := 10))
  have hd : ∀ x ∈ c :: ds, x.isDigit = true := fun x hx =>
    Nat.isDigit_of_mem_toDigits (b := 10) (n := n) (by decide) (by decide) (h ▸ hx)
  have hvalue := Nat.ofDigitChars_ten_toDigits (n := n)
  have hs := spells_count hn
  have hlo : Int64.minValue.toInt ≤ n :=
    Int.le_trans (show Int64.minValue.toInt ≤ 0 by decide) (Int.natCast_nonneg n)
  have hhi : (n : Int) ≤ Int64.maxValue.toInt := by
    have hmax : Int64.maxValue.toInt = 2 ^ 63 - 1 := by decide
    omega
  rw [h] at hs hvalue ⊢
  exact hs.denotes (.inl (hd c (by simp))) (fun rest => moment_digits hd) (by simp [hvalue]) hlo hhi

theorem denotes_minus_one : Denotes ['-', '1'] (.integer (Int64.ofInt (-1))) :=
  spells_minus_one.denotes (.inr rfl) (fun _ => moment_eq_none (by decide)) (by decide) (by decide)
    (by decide)

theorem denotes_string {cs : List Char} (h : ∀ c ∈ cs, isPlain c = true) :
    Denotes ('"' :: (cs ++ ['"'])) (.string (String.ofList cs)) where
  head := ⟨_, _, rfl, rfl⟩
  value size rest := by
    have hs : string ('"' :: (cs ++ '"' :: '\n' :: rest)) =
        some (String.ofList cs, '\n' :: rest) := string_plain h
    rw [List.cons_append, List.append_assoc, value_scalar (by decide) (by decide)]
    simp only [scalar, List.head?_cons]
    rw [if_pos (by decide), List.singleton_append, hs]
    rfl

/-! ## Settings -/

/-- A line `name = literal`, and the lines below it. -/
def setting (name : String) (literal rest : List Char) : List Char :=
  name.toList ++ ' ' :: '=' :: ' ' :: (literal ++ '\n' :: rest)

theorem ne_of_isBare {c d : Char} (hc : isBare c = true) (hd : isBare d = false) : c ≠ d := by
  rintro rfl
  rw [hc] at hd
  cases hd

theorem skipWs_of_not_isWs {c : Char} {cs : List Char} (hc : isWs c = false) :
    skipWs (c :: cs) = c :: cs :=
  List.dropWhile_cons_of_neg (by simp [hc])

theorem isWs_of_isBare {c : Char} (hc : isBare c = true) : isWs c = false := by
  simp [isWs, ne_of_isBare hc (d := ' ') (by decide), ne_of_isBare hc (d := '\t') (by decide)]

variable {name : String} {literal rest : List Char} {x : Item} {d : Draft}

theorem key_bare (size : Nat) (rest : List Char) (hne : name ≠ "")
    (hbare : ∀ c ∈ name.toList, isBare c = true) :
    ∃ k : Key, k.name = name ∧
      key size (name.toList ++ ' ' :: '=' :: rest) = some (([], k), '=' :: rest) := by
  obtain ⟨c, cs, hname⟩ := List.exists_cons_of_ne_nil (fun h => hne (String.toList_eq_nil_iff.mp h))
  have hc := hbare c (by simp [hname])
  have htake : (name.toList ++ ' ' :: '=' :: rest).takeWhile isBare = name.toList := by
    rw [List.takeWhile_append_of_pos hbare, List.takeWhile_cons_of_neg (by decide), List.append_nil]
  have hdrop : (name.toList ++ ' ' :: '=' :: rest).dropWhile isBare = ' ' :: '=' :: rest := by
    rw [List.dropWhile_append_of_pos hbare, List.dropWhile_cons_of_neg (by decide)]
  have hsimple : simpleKey (name.toList ++ ' ' :: '=' :: rest) =
      some (name, ' ' :: '=' :: rest) := by
    rw [hname, List.cons_append] at htake hdrop ⊢
    rw [simpleKey, if_neg, if_pos hc, htake, hdrop, ← hname, String.ofList_toList]
    simp [ne_of_isBare hc (d := '"') (by decide), ne_of_isBare hc (d := '\'') (by decide)]
  have hskip : skipWs (name.toList ++ ' ' :: '=' :: rest) = name.toList ++ ' ' :: '=' :: rest := by
    rw [hname]
    exact skipWs_of_not_isWs (isWs_of_isBare hc)
  obtain ⟨n, hn⟩ : ∃ n, (name.toList ++ ' ' :: '=' :: rest).length = n + 1 :=
    ⟨_, by rw [hname]; rfl⟩
  refine ⟨⟨name, spanTo size (name.toList ++ ' ' :: '=' :: rest) (' ' :: '=' :: rest)⟩, rfl, ?_⟩
  simp only [key, hn, dottedKey, hskip, hsimple, bind, Option.bind]
  rfl

theorem keyLine_setting (size : Nat) (rest : List Char) (hne : name ≠ "")
    (hbare : ∀ c ∈ name.toList, isBare c = true) (hx : Denotes literal x) (hd : d.header = none)
    (hnew : d.root.find? name = none) :
    ∃ (k : Key) (place : Span), k.name = name ∧
      keyLine size d (setting name literal rest) =
        some ({ d with root := d.root ++ [(k, place, x)] }, rest) := by
  obtain ⟨k, hk, hkey⟩ := key_bare size (' ' :: (literal ++ '\n' :: rest)) hne hbare
  obtain ⟨c, cs, hliteral, hc⟩ := hx.head
  have hskip : skipWs (' ' :: (literal ++ '\n' :: rest)) = literal ++ '\n' :: rest := by
    rw [hliteral]
    exact skipWs_of_not_isWs hc
  have hroot : ∀ place, d.root.assign [] k place x = some (d.root ++ [(k, place, x)]) := by
    intro place
    simp [Entries.assign, Entries.change, Entries.insertNew, hk, hnew]
  refine ⟨k, spanTo size (literal ++ '\n' :: rest) ('\n' :: rest), hk, ?_⟩
  simp only [keyLine, setting, hkey, mark, if_true, hskip, hx.value, hd, hroot, bind, Option.bind]
  rfl

/-- One setting is one statement: its key is new and comes after the others. -/
theorem statements_setting (size fuel : Nat) (rest : List Char) (hne : name ≠ "")
    (hbare : ∀ c ∈ name.toList, isBare c = true) (hx : Denotes literal x) (hd : d.header = none)
    (hnew : d.root.find? name = none) :
    ∃ (k : Key) (place : Span), k.name = name ∧
      statements size (fuel + 1) d (setting name literal rest) =
        statements size fuel { d with root := d.root ++ [(k, place, x)] } rest := by
  obtain ⟨k, place, hk, hline⟩ := keyLine_setting size rest hne hbare hx hd hnew
  obtain ⟨c, cs, hname⟩ := List.exists_cons_of_ne_nil (fun h => hne (String.toList_eq_nil_iff.mp h))
  have hc := hbare c (by simp [hname])
  refine ⟨k, place, hk, ?_⟩
  rw [setting, hname, List.cons_append] at hline ⊢
  rw [statements, skipWs_of_not_isWs (isWs_of_isBare hc)]
  simp [ne_of_isBare hc (d := '#') (by decide), ne_of_isBare hc (d := '\n') (by decide),
    ne_of_isBare hc (d := '\r') (by decide), ne_of_isBare hc (d := '[') (by decide), hline]

theorem dropMark_setting (hne : name ≠ "") (hbare : ∀ c ∈ name.toList, isBare c = true) :
    dropMark (setting name literal rest) = setting name literal rest := by
  obtain ⟨c, cs, hname⟩ := List.exists_cons_of_ne_nil (fun h => hne (String.toList_eq_nil_iff.mp h))
  have hc := hbare c (by simp [hname])
  rw [setting, hname, List.cons_append, dropMark]
  rintro _ ⟨⟩
  exact absurd hc (by decide)

theorem length_setting : rest.length + 1 ≤ (setting name literal rest).length := by
  simp only [setting, List.length_append, List.length_cons]
  omega

theorem statements_nil (size fuel : Nat) (d : Draft) :
    statements size (fuel + 1) d [] = some d := rfl

end KeyedLocks.Toml
