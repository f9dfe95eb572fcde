import Mathlib.Data.List.Perm.Subperm
import KeyedLocks.Policy.Document
import KeyedLocks.Policy.Printer
import KeyedLocks.Proofs.Entries

/-!
# Policies as numbers and as documents

A table `States` two counts and a text for the time when it has the three fields of a policy, in any
order, and no others. Its entries are read one by one into what they give (`Fields.foldlM_read`),
and the first one that gives nothing ends it (`Fields.foldlM_cases`). So a document is judged as the
numbers it states are, and no other document is a policy (`ofToml_exact`).
-/

namespace KeyedLocks.Policy

open Toml (Item Key Entry Entries Span)

variable {a q : Int64} {d : Duration} {limit : Option Nat} {bound : Nat}

/-! ## Counts -/

/-- A number of attempts, or no limit. -/
def IsAttempts (n : Int64) : Prop := n = -1 ∨ 1 ≤ n.toInt ∧ n.toInt < UInt32.size

/-- A number of waiting threads, or no limit. -/
def IsQueued (n : Int64) : Prop := n = -1 ∨ 1 ≤ n.toInt

instance (n : Int64) : Decidable (IsAttempts n) := inferInstanceAs (Decidable (_ ∨ _ ∧ _))

instance (n : Int64) : Decidable (IsQueued n) := inferInstanceAs (Decidable (_ ∨ _))

theorem limit?_limitNumber (h : ∀ n ∈ limit, 0 < n ∧ n < bound) (hb : bound ≤ Int64.size / 2) :
    limit? (Int64.ofInt (limitNumber limit)) bound = some ⟨limit, h⟩ := by
  cases limit with
  | none => exact if_pos (by decide)
  | some n =>
    obtain ⟨hn, hlt⟩ := h n rfl
    have hsize : Int64.size = 18446744073709551616 := rfl
    have hint : (Int64.ofInt (n : Int)).toInt = n :=
      Int64.toInt_ofInt_of_le (by omega) (by omega)
    have hnat : (Int64.ofInt (n : Int)).toInt.toNat = n := by rw [hint, Int.toNat_natCast]
    have hvalid : 0 < (Int64.ofInt (n : Int)).toInt.toNat ∧
        (Int64.ofInt (n : Int)).toInt.toNat < bound := by rw [hnat]; exact ⟨hn, hlt⟩
    have hne : (Int64.ofInt (n : Int)).toInt ≠ -1 := by omega
    change limit? (Int64.ofInt (n : Int)) bound = _
    rw [limit?, if_neg hne, dif_pos hvalid]
    simp only [hnat]

theorem eq_neg_one_iff {n : Int64} : n = -1 ↔ n.toInt = -1 := by
  rw [← Int64.toInt_inj]
  rfl

theorem limit?_eq_none_iff {n : Int64} :
    limit? n bound = none ↔ ¬ (n = -1 ∨ 1 ≤ n.toInt ∧ n.toInt < bound) := by
  rw [eq_neg_one_iff]
  unfold limit?
  split
  · next h => exact iff_of_false nofun (not_not.mpr (.inl h))
  · split
    · exact iff_of_false nofun (by omega)
    · exact iff_of_true rfl (by omega)

theorem eq_limitNumber_of_limit? {n : Int64} {o : { o : Option Nat // ∀ m ∈ o, 0 < m ∧ m < bound }}
    (h : limit? n bound = some o) : n = Int64.ofInt (limitNumber o) := by
  unfold limit? at h
  split at h
  · next hn =>
    cases h
    exact eq_neg_one_iff.mpr hn
  · split at h
    · next hb =>
      cases h
      have hint : (n.toInt.toNat : Int) = n.toInt := Int.toNat_of_nonneg (by omega)
      change n = Int64.ofInt (n.toInt.toNat : Int)
      rw [hint, Int64.ofInt_toInt]
    · cases h

theorem limit?_attempts : limit? a UInt32.size = none ↔ ¬ IsAttempts a := limit?_eq_none_iff

theorem limit?_queued : limit? q (Int64.size / 2) = none ↔ ¬ IsQueued q := by
  have hlt : q.toInt < (Int64.size / 2 : Nat) := Int64.toInt_lt q
  rw [limit?_eq_none_iff, IsQueued, and_iff_left hlt]

theorem ofLimits_of_not_isAttempts (h : ¬ IsAttempts a) :
    ofLimits a q d = .error (.acquireAttempts a) := by
  rw [ofLimits, limit?_attempts.mpr h]

theorem ofLimits_of_not_isQueued (h : IsAttempts a) (hq : ¬ IsQueued q) :
    ofLimits a q d = .error (.maximumQueued q) := by
  rw [ofLimits, limit?_queued.mpr hq]
  cases ha : limit? a UInt32.size with
  | none => exact absurd h (limit?_attempts.mp ha)
  | some o => rfl

/-- Two counts and a time are a policy if the counts are limits; then they are what it is written
as. -/
theorem ofLimits_eq_ok_iff {p : Policy} : ofLimits a q d = .ok p ↔
    a = Int64.ofInt (limitNumber p.attempts) ∧ q = Int64.ofInt (limitNumber p.queueLimit) ∧
      d = p.spinTime := by
  constructor
  · intro h
    unfold ofLimits at h
    split at h
    · cases h
    · next o ho =>
      split at h
      · cases h
      · next o' ho' =>
        cases h
        exact ⟨eq_limitNumber_of_limit? ho, eq_limitNumber_of_limit? ho', rfl⟩
  · rintro ⟨rfl, rfl, rfl⟩
    rw [ofLimits, limit?_limitNumber p.attempts_valid (by decide),
      limit?_limitNumber p.queueLimit_valid (by decide)]

theorem exists_ofLimits_iff : (∃ p, ofLimits a q d = .ok p) ↔ IsAttempts a ∧ IsQueued q := by
  constructor
  · rintro ⟨p, hp⟩
    refine ⟨?_, ?_⟩
    · by_contra h
      rw [ofLimits_of_not_isAttempts h] at hp
      cases hp
    · by_contra h
      by_cases ha : IsAttempts a
      · rw [ofLimits_of_not_isQueued ha h] at hp
        cases hp
      · rw [ofLimits_of_not_isAttempts ha] at hp
        cases hp
  · rintro ⟨ha, hq⟩
    unfold ofLimits
    cases hla : limit? a UInt32.size with
    | none => exact absurd ha (limit?_attempts.mp hla)
    | some o =>
      cases hlq : limit? q (Int64.size / 2) with
      | none => exact absurd hq (limit?_queued.mp hlq)
      | some o' => exact ⟨_, rfl⟩

theorem ofNumbers_of_nonneg {s : Int64} (hs : 0 ≤ s) :
    ofNumbers a q s = ofLimits a q (.ofMillis s.toUInt64) :=
  if_neg (Int64.not_lt.mpr hs)

/-! ## Entries -/

/-- A table with the three fields of a policy, in any order, and no others. -/
def States (entries : Entries) (a q : Int64) (spin : String) : Prop :=
  (entries.map fun e => (e.1.name, e.2.2)).Perm
    [("acquire_attempts", .integer a), ("maximum_queued", .integer q), ("spin_time", .string spin)]

/-- An entry from which a field is read, as `fields` has it. -/
inductive Gives (fields : Fields) : Entry → Prop where
  | attempts {key : Key} {place : Span} {n : Int64} : key.name = "acquire_attempts" →
      fields.attempts = some n → Gives fields (key, place, .integer n)
  | queued {key : Key} {place : Span} {n : Int64} : key.name = "maximum_queued" →
      fields.queued = some n → Gives fields (key, place, .integer n)
  | spinTime {key : Key} {place : Span} {s : String} {d : Duration} : key.name = "spin_time" →
      Duration.parse s = .ok d → fields.spinTime = some d → Gives fields (key, place, .string s)

/-- Why a table with these entries is no policy, whatever its counts are. -/
inductive Rejects (entries : Entries) : DocumentError → Prop where
  | fault {place : Option Span} {f : Fault} : (∀ e, f ≠ .limit e) → Rejects entries (.fault place f)
  | overflow {key : Key} {place : Span} {s : String} : (key, place, .string s) ∈ entries →
      key.name = "spin_time" → Duration.parse s = .error .overflow → Rejects entries .spinOverflow

theorem Rejects.mono {es es' : Entries} {err : DocumentError} (h : Rejects es err)
    (hsub : es ⊆ es') : Rejects es' err := by
  cases h with
  | fault hf => exact .fault hf
  | overflow he hk hs => exact .overflow (hsub he) hk hs

namespace Fields

variable {old mid new : Fields} {e : Entry} {es : Entries} {names : List String}

/-- The fields of `new` under the names of a list, and those of `old` under all others. -/
def update (old new : Fields) (names : List String) : Fields where
  attempts := if "acquire_attempts" ∈ names then new.attempts else old.attempts
  queued := if "maximum_queued" ∈ names then new.queued else old.queued
  spinTime := if "spin_time" ∈ names then new.spinTime else old.spinTime

theorem update_cons (name : String) (names : List String) :
    (old.update new [name]).update new names = old.update new (name :: names) := by
  have hsplit {α : Type} (key : String) (x y : α) :
      (if key ∈ names then x else if key ∈ [name] then x else y) =
        if key ∈ name :: names then x else y := by
    by_cases hn : key ∈ names
    · rw [if_pos hn, if_pos (List.mem_cons_of_mem _ hn)]
    · by_cases hk : key = name
      · rw [if_neg hn, if_pos (List.mem_singleton.mpr hk), if_pos (hk ▸ List.mem_cons_self ..)]
      · rw [if_neg hn, if_neg fun h => hk (List.mem_singleton.mp h),
          if_neg fun h => (List.mem_cons.mp h).elim hk hn]
  unfold update
  rw [hsplit, hsplit, hsplit]

theorem read_attempts {key : Key} (h : key.name = "acquire_attempts") (place : Span) (item : Item) :
    old.read (key, place, item) =
      (integerOf place item).map fun n => { old with attempts := some n } := by
  rw [read, if_pos h]
  rfl

theorem read_queued {key : Key} (h : key.name = "maximum_queued") (place : Span) (item : Item) :
    old.read (key, place, item) =
      (integerOf place item).map fun n => { old with queued := some n } := by
  rw [read, h, if_neg (by decide), if_pos rfl]
  rfl

theorem read_spinTime {key : Key} (h : key.name = "spin_time") (place : Span) (item : Item) :
    old.read (key, place, item) =
      (durationOf place item).map fun d => { old with spinTime := some d } := by
  rw [read, h, if_neg (by decide), if_neg (by decide), if_pos rfl]
  rfl

theorem read_of_gives (h : Gives new e) : old.read e = .ok (old.update new [e.1.name]) := by
  cases h with
  | attempts hk hn =>
    rw [read_attempts hk, update, hn, hk]
    rfl
  | queued hk hn =>
    rw [read_queued hk, update, hn, hk]
    rfl
  | spinTime hk hs hd =>
    rw [read_spinTime hk, durationOf, hs, update, hd, hk]
    rfl

theorem read_cases (old : Fields) (e : Entry) : (∃ new, old.read e = .ok new ∧ Gives new e) ∨
    ∃ err, old.read e = .error err ∧ Rejects [e] err := by
  obtain ⟨key, place, item⟩ := e
  by_cases ha : key.name = "acquire_attempts"
  · rw [read_attempts ha]
    cases item with
    | integer n => exact .inl ⟨_, rfl, .attempts ha rfl⟩
    | _ => exact .inr ⟨_, rfl, .fault nofun⟩
  by_cases hq : key.name = "maximum_queued"
  · rw [read_queued hq]
    cases item with
    | integer n => exact .inl ⟨_, rfl, .queued hq rfl⟩
    | _ => exact .inr ⟨_, rfl, .fault nofun⟩
  by_cases hs : key.name = "spin_time"
  · rw [read_spinTime hs]
    cases item with
    | string s =>
      cases hd : Duration.parse s with
      | ok d =>
        rw [durationOf, hd]
        exact .inl ⟨_, rfl, .spinTime hs hd rfl⟩
      | error err =>
        rw [durationOf, hd]
        cases err with
        | invalid => exact .inr ⟨_, rfl, .fault nofun⟩
        | overflow => exact .inr ⟨_, rfl, .overflow (List.mem_singleton_self _) hs hd⟩
    | _ => exact .inr ⟨_, rfl, .fault nofun⟩
  · rw [read, if_neg ha, if_neg hq, if_neg hs]
    exact .inr ⟨_, rfl, .fault nofun⟩

theorem gives_update (h : Gives old e) (hn : e.1.name ∉ names) :
    Gives (old.update new names) e := by
  cases h with
  | attempts hk hv => exact .attempts hk ((if_neg (hk ▸ hn)).trans hv)
  | queued hk hv => exact .queued hk ((if_neg (hk ▸ hn)).trans hv)
  | spinTime hk hs hv => exact .spinTime hk hs ((if_neg (hk ▸ hn)).trans hv)

/-- Entries that give the fields of `new` are read as these, one by one. -/
theorem foldlM_read (h : ∀ e ∈ es, Gives new e) :
    es.foldlM read old = .ok (old.update new es.names) := by
  induction es generalizing old with
  | nil => rfl
  | cons e es ih =>
    rw [List.foldlM_cons, read_of_gives (h e (List.mem_cons_self ..))]
    exact (ih fun e' he => h e' (List.mem_cons_of_mem _ he)).trans (by rw [update_cons]; rfl)

/-- Entries of different names are all read, and give what was read of them, or the first that gives
nothing is a reason to refuse the table. -/
theorem foldlM_cases (old : Fields) (hd : es.names.Nodup) :
    (∃ new, es.foldlM read old = .ok new ∧ ∀ e ∈ es, Gives new e) ∨
      ∃ err, es.foldlM read old = .error err ∧ Rejects es err := by
  induction es generalizing old with
  | nil => exact .inl ⟨old, rfl, nofun⟩
  | cons e es ih =>
    obtain ⟨hne, hd⟩ := List.nodup_cons.mp hd
    rw [List.foldlM_cons]
    rcases read_cases old e with ⟨mid, hr, he⟩ | ⟨err, hr, he⟩
    · rw [hr]
      rcases ih mid hd with ⟨new, hf, hes⟩ | ⟨err, hf, hes⟩
      · -- The entries that follow leave alone what `e` gave.
        have hnew : new = mid.update new (Entries.names es) :=
          Except.ok.inj (hf.symm.trans (foldlM_read hes))
        refine .inl ⟨new, hf, List.forall_mem_cons.mpr ⟨?_, hes⟩⟩
        rw [hnew]
        exact gives_update he hne
      · exact .inr ⟨err, hf, hes.mono (List.subset_cons_self ..)⟩
    · rw [hr]
      exact .inr ⟨err, rfl, he.mono (List.cons_subset_cons e (List.nil_subset es))⟩

end Fields

/-! ## Tables -/

variable {entries : Entries} {fields : Fields} {e : Entry} {spin : String}

theorem ofTable_of_states (h : States entries a q spin) (hd : Duration.parse spin = .ok d) :
    ofTable entries = (ofLimits a q d).mapError fun e => .fault none (.limit e) := by
  have hgives : ∀ e ∈ entries, Gives ⟨some a, some q, some d⟩ e := by
    rintro ⟨key, place, item⟩ he
    have hmem := h.mem_iff.mp (List.mem_map_of_mem he)
    simp only [List.mem_cons, Prod.mk.injEq, List.not_mem_nil, or_false] at hmem
    rcases hmem with ⟨hk, rfl⟩ | ⟨hk, rfl⟩ | ⟨hk, rfl⟩
    · exact .attempts hk rfl
    · exact .queued hk rfl
    · exact .spinTime hk hd rfl
  have hnames : entries.names.Perm ["acquire_attempts", "maximum_queued", "spin_time"] := by
    have hmap := h.map Prod.fst
    rw [List.map_map] at hmap
    exact hmap
  have hfold : entries.foldlM Fields.read {} = .ok ⟨some a, some q, some d⟩ := by
    rw [Fields.foldlM_read hgives, Fields.update, if_pos (hnames.mem_iff.mpr (by decide)),
      if_pos (hnames.mem_iff.mpr (by decide)), if_pos (hnames.mem_iff.mpr (by decide))]
  simp only [ofTable, hfold, require, bind, Except.bind]
  cases ofLimits a q d <;> rfl

/-- An entry that gives a field of a table stands for one of the three. -/
theorem Gives.pair (h : Gives fields e) (ha : fields.attempts = some a)
    (hq : fields.queued = some q) (hs : fields.spinTime = some d) :
    (e.1.name, e.2.2) = ("acquire_attempts", .integer a) ∨
      (e.1.name, e.2.2) = ("maximum_queued", .integer q) ∨
        ∃ s, Duration.parse s = .ok d ∧ (e.1.name, e.2.2) = ("spin_time", .string s) := by
  cases h with
  | attempts hk hn =>
    cases hn.symm.trans ha
    exact .inl (by rw [hk])
  | queued hk hn =>
    cases hn.symm.trans hq
    exact .inr (.inl (by rw [hk]))
  | spinTime hk hd hn =>
    cases hn.symm.trans hs
    exact .inr (.inr ⟨_, hd, by rw [hk]⟩)

/-- A table from which all three fields were read has them, and no others. -/
theorem exists_states (hdistinct : entries.Distinct) (hg : ∀ e ∈ entries, Gives fields e)
    (hf : fields = Fields.update {} fields entries.names) (ha : fields.attempts = some a)
    (hq : fields.queued = some q) (hs : fields.spinTime = some d) :
    ∃ spin, States entries a q spin ∧ Duration.parse spin = .ok d := by
  have hattempts : "acquire_attempts" ∈ entries.names := by
    by_contra hn
    cases ha.symm.trans ((congrArg Fields.attempts hf).trans (if_neg hn))
  have hqueued : "maximum_queued" ∈ entries.names := by
    by_contra hn
    cases hq.symm.trans ((congrArg Fields.queued hf).trans (if_neg hn))
  have hspin : "spin_time" ∈ entries.names := by
    by_contra hn
    cases hs.symm.trans ((congrArg Fields.spinTime hf).trans (if_neg hn))
  generalize hps : (entries.map fun e => (e.1.name, e.2.2)) = pairs
  have hnames : pairs.map Prod.fst = entries.names := by
    rw [← hps, List.map_map]
    rfl
  have hdistinct : (pairs.map Prod.fst).Nodup := hnames ▸ hdistinct
  have hpair : ∀ x ∈ pairs, x = ("acquire_attempts", .integer a) ∨
      x = ("maximum_queued", .integer q) ∨
        ∃ s, Duration.parse s = .ok d ∧ x = ("spin_time", .string s) := by
    rw [← hps]
    intro x hx
    obtain ⟨e, he, rfl⟩ := List.mem_map.mp hx
    exact (hg e he).pair ha hq hs
  obtain ⟨spin, hparse, hmem⟩ :
      ∃ spin, Duration.parse spin = .ok d ∧ ("spin_time", .string spin) ∈ pairs := by
    obtain ⟨x, hx, hn⟩ := List.mem_map.mp (hnames ▸ hspin)
    rcases hpair x hx with rfl | rfl | ⟨s, hd, rfl⟩
    · exact absurd hn (by simp)
    · exact absurd hn (by simp)
    · exact ⟨s, hd, hx⟩
  -- There are three entries at least, and none but the three.
  have hthree : ["acquire_attempts", "maximum_queued", "spin_time"].Subperm
      (pairs.map Prod.fst) := by
    refine List.Nodup.subperm (by decide) ?_
    rw [hnames]
    exact List.cons_subset.mpr ⟨hattempts, List.cons_subset.mpr
      ⟨hqueued, List.cons_subset.mpr ⟨hspin, List.nil_subset _⟩⟩⟩
  have hsub : pairs ⊆ [("acquire_attempts", .integer a), ("maximum_queued", .integer q),
      ("spin_time", .string spin)] := by
    intro x hx
    rcases hpair x hx with rfl | rfl | ⟨s, -, rfl⟩
    · exact .head _
    · exact .tail _ (.head _)
    · cases List.inj_on_of_nodup_map hdistinct hx hmem rfl
      exact .tail _ (.tail _ (.head _))
  have hlen := hthree.length_le
  rw [List.length_map] at hlen
  refine ⟨spin, ?_, hparse⟩
  rw [States, hps]
  exact ((List.Nodup.of_map _ hdistinct).subperm hsub).perm_of_length_le hlen

/-- A table has the three fields, or it is refused whatever its counts are. -/
theorem states_or_rejects (h : entries.Distinct) :
    (∃ a q spin d, States entries a q spin ∧ Duration.parse spin = .ok d) ∨
      ∃ err, ofTable entries = .error err ∧ Rejects entries err := by
  rcases Fields.foldlM_cases {} h with ⟨fields, hf, hg⟩ | ⟨err, hf, hr⟩
  · have hfields : fields = Fields.update {} fields entries.names :=
      Except.ok.inj (hf.symm.trans (Fields.foldlM_read hg))
    rcases ha : fields.attempts with _ | a
    · refine .inr ⟨.fault (some (extent entries)) (.missingField "acquire_attempts"), ?_,
        .fault nofun⟩
      simp only [ofTable, hf, require, ha, bind, Except.bind]
    rcases hq : fields.queued with _ | q
    · refine .inr ⟨.fault (some (extent entries)) (.missingField "maximum_queued"), ?_,
        .fault nofun⟩
      simp only [ofTable, hf, require, ha, hq, bind, Except.bind]
    rcases hs : fields.spinTime with _ | d
    · refine .inr ⟨.fault (some (extent entries)) (.missingField "spin_time"), ?_, .fault nofun⟩
      simp only [ofTable, hf, require, ha, hq, hs, bind, Except.bind]
    obtain ⟨spin, hstates, hd⟩ := exists_states h hg hfields ha hq hs
    exact .inl ⟨a, q, spin, d, hstates, hd⟩
  · refine .inr ⟨err, ?_, hr⟩
    rw [ofTable, hf]
    rfl

/-! ## Documents -/

/-- **A document is judged as the numbers that it states**, in whatever order and notation, and
nothing else is a policy. One that states no counts and no time is refused for a fault in its
entries, unless it breaks off at a time that comes to 2^64 seconds. -/
theorem ofToml_exact {text : String} (h : Toml.parse text = some entries) :
    (∀ a q s spin, 0 ≤ s → States entries a q spin →
      Duration.parse spin = .ok (.ofMillis s.toUInt64) →
        ofToml text = (ofNumbers a q s).mapError fun e => .fault none (.limit e)) ∧
    (∀ a q s, 0 ≤ s → ((∃ p, ofNumbers a q s = .ok p) ↔ IsAttempts a ∧ IsQueued q) ∧
      (¬ IsAttempts a → ofNumbers a q s = .error (.acquireAttempts a)) ∧
      (IsAttempts a → ¬ IsQueued q → ofNumbers a q s = .error (.maximumQueued q))) ∧
    (∀ p : Policy, ofToml text = .ok p ↔ ∃ spin, Duration.parse spin = .ok p.spinTime ∧
      States entries (.ofInt (limitNumber p.attempts)) (.ofInt (limitNumber p.queueLimit)) spin) ∧
    ((¬ ∃ a q spin d, States entries a q spin ∧ Duration.parse spin = .ok d) →
      ∃ err, ofToml text = .error err ∧ Rejects entries err) := by
  have htable : ofToml text = ofTable entries := by rw [ofToml, h]
  have hdistinct := Toml.distinct_parse h
  rw [htable]
  refine ⟨?_, ?_, ?_, ?_⟩
  · intro a q s spin hs hstates hd
    rw [ofTable_of_states hstates hd, ofNumbers_of_nonneg hs]
  · intro a q s hs
    rw [ofNumbers_of_nonneg hs]
    exact ⟨exists_ofLimits_iff, ofLimits_of_not_isAttempts, ofLimits_of_not_isQueued⟩
  · intro p
    constructor
    · intro hp
      rcases states_or_rejects hdistinct with ⟨a, q, spin, d, hstates, hd⟩ | ⟨err, he, -⟩
      · rw [ofTable_of_states hstates hd] at hp
        cases hl : ofLimits a q d with
        | error e =>
          rw [hl] at hp
          cases hp
        | ok p' =>
          rw [hl] at hp
          cases hp
          obtain ⟨rfl, rfl, rfl⟩ := ofLimits_eq_ok_iff.mp hl
          exact ⟨spin, hd, hstates⟩
      · rw [he] at hp
        cases hp
    · rintro ⟨spin, hd, hstates⟩
      rw [ofTable_of_states hstates hd, ofLimits_eq_ok_iff.mpr ⟨rfl, rfl, rfl⟩]
      rfl
  · intro hno
    exact (states_or_rejects hdistinct).resolve_left hno

/-- Both counts are no limits, and the time is written in hours and minutes. -/
def shuffled : String :=
  "spin_time = \"1h 5m\"\nmaximum_queued = 0\nacquire_attempts = 4294967296\n"

def scant : String := "maximum_queued = 7\n"

/-- The attempts are judged first, and a document without them is none at all. -/
theorem ofToml_exact_shuffled :
    (∃ entries, Toml.parse shuffled = some entries ∧
      States entries 4294967296 0 "1h 5m" ∧
      Duration.parse "1h 5m" = .ok (.ofMillis (3900000 : Int64).toUInt64) ∧
      ofNumbers 4294967296 0 3900000 = .error (.acquireAttempts 4294967296) ∧
      ofToml shuffled = .error (.fault none (.limit (.acquireAttempts 4294967296)))) ∧
    ∃ entries, Toml.parse scant = some entries ∧
      (¬ ∃ a q spin d, States entries a q spin ∧ Duration.parse spin = .ok d) ∧
      ∃ err, ofToml scant = .error err ∧ Rejects entries err := by
  constructor
  · have hparse : Toml.parse shuffled = some
        [(⟨"spin_time", 0, 9⟩, ⟨12, 19⟩, .string "1h 5m"),
          (⟨"maximum_queued", 20, 34⟩, ⟨37, 38⟩, .integer 0),
          (⟨"acquire_attempts", 39, 55⟩, ⟨58, 68⟩, .integer 4294967296)] := by rfl
    have hstates := List.reverse_perm [("acquire_attempts", Item.integer 4294967296),
      ("maximum_queued", .integer 0), ("spin_time", .string "1h 5m")]
    have htime : Duration.parse "1h 5m" = .ok (.ofMillis (3900000 : Int64).toUInt64) := by
      decide +kernel
    obtain ⟨hagree, hnumbers, -⟩ := ofToml_exact hparse
    have herror : ofNumbers 4294967296 0 3900000 = .error (.acquireAttempts 4294967296) :=
      (hnumbers _ _ _ (by decide)).2.1 (by decide)
    refine ⟨_, hparse, hstates, htime, herror, ?_⟩
    rw [hagree _ _ 3900000 _ (by decide) hstates htime, herror]
    rfl
  · have hparse : Toml.parse scant = some [(⟨"maximum_queued", 0, 14⟩, ⟨17, 18⟩, .integer 7)] := by
      rfl
    have hno : ¬ ∃ a q spin d, States [(⟨"maximum_queued", 0, 14⟩, ⟨17, 18⟩, .integer 7)] a q spin ∧
        Duration.parse spin = .ok d := by
      rintro ⟨a, q, spin, d, hstates, -⟩
      exact absurd hstates.length_eq (by simp)
    exact ⟨_, hparse, hno, (ofToml_exact hparse).2.2.2 hno⟩

/-- The time has a number without a unit at its end, but comes to 2^64 seconds before that. -/
def endless : String :=
  "acquire_attempts = -1\nmaximum_queued = -1\nspin_time = \"18446744073709551615s 1000ms5\"\n"

/-- **A time that is none need not be refused**: reading breaks off where the seconds run over. -/
theorem ofToml_endless : ∃ entries, Toml.parse endless = some entries ∧
    (¬ ∃ a q spin d, States entries a q spin ∧ Duration.parse spin = .ok d) ∧
    ∀ place f, ofToml endless ≠ .error (.fault place f) := by
  have hparse : Toml.parse endless = some
      [(⟨"acquire_attempts", 0, 16⟩, ⟨19, 21⟩, .integer (-1)),
        (⟨"maximum_queued", 22, 36⟩, ⟨39, 41⟩, .integer (-1)),
        (⟨"spin_time", 42, 51⟩, ⟨54, 85⟩, .string "18446744073709551615s 1000ms5")] := by rfl
  have htime : Duration.parse "18446744073709551615s 1000ms5" = .error .overflow := by
    decide +kernel
  refine ⟨_, hparse, ?_, ?_⟩
  · rintro ⟨a, q, spin, d, hstates, hd⟩
    have hmem : ("spin_time", Item.string spin) ∈ _ := hstates.mem_iff.mpr (by simp)
    have hspin : spin = "18446744073709551615s 1000ms5" := by simpa using hmem
    rw [hspin, htime] at hd
    cases hd
  · intro place f hf
    rw [ofToml, hparse] at hf
    simp [ofTable, Fields.read, integerOf, durationOf, htime, bind, Except.bind] at hf

end KeyedLocks.Policy
