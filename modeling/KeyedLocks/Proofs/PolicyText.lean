import KeyedLocks.Proofs.PolicyDocument
import KeyedLocks.Proofs.Toml

/-!
# Policies in writing are read back

`Policy.ofToml_toToml`: the document written of a policy is read as that policy. The document is
three settings (`toList_toToml`); a count is written as a number that denotes it
(`denotes_limit`, `ofTable_eq`), and `-1` is written of nothing but the missing limit, for each
limit of a queue fits 64 bits (`queueNumber_eq`).
-/

namespace KeyedLocks.Policy

open Toml (Denotes setting)

variable {limit : Option Nat}

theorem limitNumber_eq_iff : limitNumber limit = -1 ↔ limit = none := by
  cases limit with
  | none => exact ⟨fun _ => rfl, fun _ => rfl⟩
  | some n =>
    refine ⟨fun h => ?_, nofun⟩
    cases h

/-- A limit of the queue never is too large to be written. -/
theorem queueNumber_eq (p : Policy) : queueNumber p.queueLimit = limitNumber p.queueLimit := by
  have hp := p.queueLimit_valid
  unfold queueNumber
  cases hl : p.queueLimit with
  | none => rfl
  | some n =>
    have hn := (hp n (by rw [hl]; rfl)).2
    rw [Option.filter_some, if_pos (by simpa using hn)]

theorem denotes_limit (h : ∀ n ∈ limit, 0 < n ∧ n < 2 ^ 63) :
    Denotes (toString (limitNumber limit)).toList (.integer (Int64.ofInt (limitNumber limit))) := by
  cases limit with
  | none => exact Toml.denotes_minus_one
  | some n =>
    obtain ⟨hn, hlt⟩ := h n rfl
    have htext : (toString (limitNumber (some n))).toList = Nat.toDigits 10 n := Nat.toList_repr
    rw [htext]
    exact Toml.denotes_count hn hlt

theorem toList_toToml (p : Policy) :
    p.toToml.toList =
      setting "acquire_attempts" (toString (limitNumber p.attempts)).toList
        (setting "maximum_queued" (toString (limitNumber p.queueLimit)).toList
          (setting "spin_time" ('"' :: (p.spinTime.render.toList ++ ['"'])) [])) := by
  have hself : ∀ s : String, toString s = s := fun _ => rfl
  have hattempts : "acquire_attempts = ".toList = "acquire_attempts".toList ++ [' ', '=', ' '] := by
    decide +kernel
  have hqueued : "\nmaximum_queued = ".toList =
      '\n' :: ("maximum_queued".toList ++ [' ', '=', ' ']) := by decide +kernel
  have hspin : "spin_time = \"".toList = "spin_time".toList ++ [' ', '=', ' ', '"'] := by
    decide +kernel
  have hend : "\"\n".toList = ['"', '\n'] := rfl
  have hline : "\n".toList = ['\n'] := rfl
  unfold toToml setting
  simp only [queueNumber_eq, String.toList_append, hself, hattempts, hqueued, hspin, hend, hline,
    List.append_assoc, List.cons_append, List.nil_append]

theorem isPlain_of_mem_render {d : Duration} {c : Char} (hc : c ∈ d.render.toList) :
    Toml.isPlain c = true := by
  have hplain : (32 ≤ c.toNat ∧ c.toNat ≤ 126 ∧ c.toNat ≠ 34 ∧ c.toNat ≠ 92) ∨ c = 'µ' := by
    rcases Duration.mem_render hc with hd | hl | rfl
    · have := Duration.isDigit_bounds hd
      omega
    · simp only [Duration.isUnitLetter, Bool.or_eq_true, beq_iff_eq] at hl
      rcases hl with hl | hl
      · have := Duration.isAlpha_bounds hl
        omega
      · exact .inr hl
    · decide
  rcases hplain with ⟨hlo, hhi, hquote, hslash⟩ | rfl
  · have hprint : Toml.isComment c = true := by
      have hle : ' ' ≤ c ∧ c ≤ '~' := by
        simp only [Char.le_def, UInt32.le_iff_toNat_le]
        exact ⟨hlo, hhi⟩
      simp [Toml.isComment, hle.1, hle.2]
    have hne : c ≠ '"' ∧ c ≠ '\\' := by
      constructor
      · rintro rfl
        exact hquote rfl
      · rintro rfl
        exact hslash rfl
    simp [Toml.isPlain, hprint, hne.1, hne.2]
  · decide

theorem ofTable_eq {k₁ k₂ k₃ : Toml.Key} (p : Policy) (s₁ s₂ s₃ : Toml.Span)
    (hk₁ : k₁.name = "acquire_attempts") (hk₂ : k₂.name = "maximum_queued")
    (hk₃ : k₃.name = "spin_time") :
    ofTable [(k₁, s₁, .integer (Int64.ofInt (limitNumber p.attempts))),
      (k₂, s₂, .integer (Int64.ofInt (limitNumber p.queueLimit))),
      (k₃, s₃, .string p.spinTime.render)] = .ok p := by
  have hstates : States [(k₁, s₁, .integer (Int64.ofInt (limitNumber p.attempts))),
      (k₂, s₂, .integer (Int64.ofInt (limitNumber p.queueLimit))),
      (k₃, s₃, .string p.spinTime.render)] (.ofInt (limitNumber p.attempts))
      (.ofInt (limitNumber p.queueLimit)) p.spinTime.render := by
    rw [States, List.map_cons, List.map_cons, List.map_singleton, hk₁, hk₂, hk₃]
  rw [ofTable_of_states hstates p.spinTime.parse_render, ofLimits_eq_ok_iff.mpr ⟨rfl, rfl, rfl⟩]
  rfl

theorem exists_parse_toToml (p : Policy) :
    ∃ (k₁ k₂ k₃ : Toml.Key) (s₁ s₂ s₃ : Toml.Span),
      k₁.name = "acquire_attempts" ∧ k₂.name = "maximum_queued" ∧ k₃.name = "spin_time" ∧
      Toml.parse p.toToml = some [(k₁, s₁, .integer (Int64.ofInt (limitNumber p.attempts))),
        (k₂, s₂, .integer (Int64.ofInt (limitNumber p.queueLimit))),
        (k₃, s₃, .string p.spinTime.render)] := by
  have hattempts := denotes_limit fun n hn => by
    have := p.attempts_valid n hn
    exact ⟨this.1, Nat.lt_trans this.2 (by decide)⟩
  have hqueued := denotes_limit fun n hn => by
    have := p.queueLimit_valid n hn
    exact ⟨this.1, Nat.lt_of_lt_of_le this.2 (by decide)⟩
  have hspin := Toml.denotes_string fun c (hc : c ∈ p.spinTime.render.toList) =>
    isPlain_of_mem_render hc
  rw [String.ofList_toList] at hspin
  have htext := p.toList_toToml
  have hnames : (∀ c ∈ "acquire_attempts".toList, Toml.isBare c = true) ∧
      (∀ c ∈ "maximum_queued".toList, Toml.isBare c = true) ∧
      (∀ c ∈ "spin_time".toList, Toml.isBare c = true) :=
    ⟨List.all_eq_true.mp (by decide +kernel), List.all_eq_true.mp (by decide +kernel),
      List.all_eq_true.mp (by decide +kernel)⟩
  generalize hlast : setting "spin_time" ('"' :: (p.spinTime.render.toList ++ ['"'])) [] = last
    at htext
  generalize hlines : setting "maximum_queued" (toString (limitNumber p.queueLimit)).toList last =
    lines at htext
  obtain ⟨fuel, hfuel⟩ : ∃ fuel, p.toToml.toList.length + 1 = fuel + 4 := by
    have h₁ : lines.length + 1 ≤ p.toToml.toList.length := htext ▸ Toml.length_setting
    have h₂ : last.length + 1 ≤ lines.length := hlines ▸ Toml.length_setting
    have h₃ : ([] : List Char).length + 1 ≤ last.length := hlast ▸ Toml.length_setting
    exact ⟨p.toToml.toList.length - 3, by rw [List.length_nil] at h₃; omega⟩
  obtain ⟨k₁, s₁, hk₁, h₁⟩ := Toml.statements_setting (d := {})
    p.toToml.utf8ByteSize (fuel + 3) lines (by decide) hnames.1 hattempts rfl rfl
  obtain ⟨k₂, s₂, hk₂, h₂⟩ := Toml.statements_setting
    (d := ⟨[(k₁, s₁, .integer (Int64.ofInt (limitNumber p.attempts)))], none⟩)
    p.toToml.utf8ByteSize (fuel + 2) last (by decide) hnames.2.1 hqueued rfl
    (by simp [Toml.Entries.find?, hk₁])
  obtain ⟨k₃, s₃, hk₃, h₃⟩ := Toml.statements_setting
    (d := ⟨[(k₁, s₁, .integer (Int64.ofInt (limitNumber p.attempts))),
      (k₂, s₂, .integer (Int64.ofInt (limitNumber p.queueLimit)))], none⟩)
    p.toToml.utf8ByteSize (fuel + 1) [] (by decide) hnames.2.2 hspin rfl
    (by simp [Toml.Entries.find?, hk₁, hk₂])
  rw [hlines] at h₂
  rw [hlast] at h₃
  refine ⟨k₁, k₂, k₃, s₁, s₂, s₃, hk₁, hk₂, hk₃, ?_⟩
  rw [Toml.parse, hfuel, htext, Toml.dropMark_setting (by decide) hnames.1, h₁]
  exact congrArg (Option.map Toml.Draft.root) (h₂.trans (h₃.trans (Toml.statements_nil ..)))

/-- **A policy survives its file format.** Reading the document that is written of a policy gives
the policy; `-1` stands for nothing but a missing limit, and the time to wait is not rounded. -/
theorem ofToml_toToml (p : Policy) :
    ofToml p.toToml = .ok p ∧
      (limitNumber p.attempts = -1 ↔ p.attempts = none) ∧
      (queueNumber p.queueLimit = -1 ↔ p.queueLimit = none) ∧
      Duration.parse p.spinTime.render = .ok p.spinTime := by
  obtain ⟨k₁, k₂, k₃, s₁, s₂, s₃, hk₁, hk₂, hk₃, hparse⟩ := p.exists_parse_toToml
  refine ⟨?_, limitNumber_eq_iff, ?_, p.spinTime.parse_render⟩
  · rw [ofToml, hparse]
    exact p.ofTable_eq s₁ s₂ s₃ hk₁ hk₂ hk₃
  · rw [queueNumber_eq]
    exact limitNumber_eq_iff

end KeyedLocks.Policy
