import Mathlib.Data.List.Nodup
import KeyedLocks.Toml.Parser

/-!
# Names of the entries of a table

No two entries of a root table have one name (`Entries.Distinct`). Each statement of a document
keeps this (`distinct_headerLine`, `distinct_keyLine`), since `Entries.change` adds an entry only
where it found none of that name, and so it holds of what is read of a text (`distinct_parse`).
-/

namespace KeyedLocks.Toml

namespace Entries

variable {es es' : Entries} {name : String} {k : Key} {place : Span} {item : Item}

def names (es : Entries) : List String := es.map (·.1.name)

/-- All entries have names of their own. -/
def Distinct (es : Entries) : Prop := es.names.Nodup

theorem notMem_names_iff : es.find? name = none ↔ name ∉ es.names := by
  rw [find?, List.find?_eq_none, names, List.mem_map]
  constructor
  · rintro h ⟨e, he, rfl⟩
    exact h e he (decide_eq_true rfl)
  · intro h e he hn
    exact h ⟨e, he, of_decide_eq_true hn⟩

theorem names_append : (es ++ es').names = es.names ++ es'.names := List.map_append ..

@[simp] theorem names_replace : (es.replace name item).names = es.names := by
  rw [names, replace, List.map_map]
  refine List.map_congr_left fun e _ => ?_
  rw [Function.comp_apply]
  split <;> rfl

@[simp] theorem names_stretch (stop : Nat) : (es.stretch name stop).names = es.names := by
  rw [names, stretch, List.map_map]
  refine List.map_congr_left fun e _ => ?_
  rw [Function.comp_apply]
  split <;> rfl

theorem Distinct.append (h : es.Distinct) (hn : k.name ∉ es.names) :
    Distinct (es ++ [(k, place, item)]) := by
  rw [Distinct, names_append]
  refine List.nodup_append.mpr ⟨h, List.nodup_singleton _, ?_⟩
  rintro a ha b hb rfl
  rw [List.mem_singleton.mp hb] at ha
  exact hn ha

theorem Distinct.erase (h : es.Distinct) (name : String) : (es.erase name).Distinct :=
  h.sublist (List.filter_sublist.map _)

theorem notMem_names_erase : name ∉ (es.erase name).names := by
  rw [names, erase, List.mem_map]
  rintro ⟨e, he, rfl⟩
  exact of_decide_eq_true (List.mem_filter.mp he).2 rfl

/-- A change below a path leaves the names of the table apart if it does so where the path is
empty. -/
theorem Distinct.change {made origin : Origin} {f : Origin → Entries → Option Entries}
    (hf : ∀ {o es es'}, Distinct es → f o es = some es' → Distinct es') (path : List Key)
    (h : es.Distinct) (hc : Entries.change made f origin path es = some es') : es'.Distinct := by
  cases path with
  | nil => exact hf h hc
  | cons k path =>
    rw [Entries.change] at hc
    split at hc
    · next hk =>
      obtain ⟨inner, -, hc⟩ := Option.bind_eq_some_iff.mp hc
      cases hc
      exact h.append (notMem_names_iff.mp hk)
    · split at hc
      · cases hc
      · obtain ⟨inner, -, hc⟩ := Option.bind_eq_some_iff.mp hc
        cases hc
        rw [Distinct, names_replace]
        exact h
    · split at hc
      · cases hc
      · obtain ⟨last, -, hc⟩ := Option.bind_eq_some_iff.mp hc
        cases hc
        rw [Distinct, names_replace]
        exact h
    · cases hc

theorem Distinct.insertNew (h : es.Distinct) (hi : es.insertNew k place item = some es') :
    es'.Distinct := by
  unfold Entries.insertNew at hi
  split at hi
  · next hk =>
    cases hi
    exact h.append (notMem_names_iff.mp hk)
  · cases hi

theorem Distinct.assign {path : List Key} (h : es.Distinct)
    (ha : es.assign path k place item = some es') : es'.Distinct := by
  refine h.change (fun h hf => ?_) path ha
  split at hf
  · cases hf
  · exact h.insertNew hf

theorem Distinct.openTable {path : List Key} (h : es.Distinct)
    (ho : es.openTable path k place = some es') : es'.Distinct := by
  refine h.change (fun h hf => ?_) path ho
  split at hf
  · next hk =>
    cases hf
    exact h.append (notMem_names_iff.mp hk)
  · cases hf
    exact (h.erase _).append notMem_names_erase
  · cases hf

theorem Distinct.openArray {path : List Key} (h : es.Distinct)
    (ho : es.openArray path k place = some es') : es'.Distinct := by
  refine h.change (fun h hf => ?_) path ho
  split at hf
  · next hk =>
    cases hf
    exact h.append (notMem_names_iff.mp hk)
  · cases hf
    rw [Distinct, names_stretch, names_replace]
    exact h
  · cases hf

theorem Distinct.assignBelow {above path : List Key} {own : Key} (h : es.Distinct)
    (ha : es.assignBelow above own path k place item = some es') : es'.Distinct := by
  refine h.change (fun h hf => ?_) above ha
  obtain ⟨es₁, hc, hf⟩ := Option.bind_eq_some_iff.mp hf
  cases hf
  rw [Distinct, names_stretch]
  exact h.change (fun h ha => h.assign ha) [own] hc

end Entries

/-! ## Documents -/

variable {size fuel : Nat} {d d' : Draft} {cs rest : List Char}

theorem distinct_headerLine (h : d.root.Distinct)
    (hl : headerLine size d cs = some (d', rest)) : d'.root.Distinct := by
  unfold headerLine at hl
  split at hl
  · obtain ⟨⟨⟨path, k⟩, r⟩, -, hl⟩ := Option.bind_eq_some_iff.mp hl
    obtain ⟨r₁, -, hl⟩ := Option.bind_eq_some_iff.mp hl
    obtain ⟨r₂, -, hl⟩ := Option.bind_eq_some_iff.mp hl
    obtain ⟨root, hr, hl⟩ := Option.bind_eq_some_iff.mp hl
    obtain ⟨r₃, -, hl⟩ := Option.bind_eq_some_iff.mp hl
    cases hl
    exact h.openArray hr
  · obtain ⟨⟨⟨path, k⟩, r⟩, -, hl⟩ := Option.bind_eq_some_iff.mp hl
    obtain ⟨r₁, -, hl⟩ := Option.bind_eq_some_iff.mp hl
    obtain ⟨root, hr, hl⟩ := Option.bind_eq_some_iff.mp hl
    obtain ⟨r₃, -, hl⟩ := Option.bind_eq_some_iff.mp hl
    cases hl
    exact h.openTable hr
  · cases hl

theorem distinct_keyLine (h : d.root.Distinct) (hl : keyLine size d cs = some (d', rest)) :
    d'.root.Distinct := by
  unfold keyLine at hl
  obtain ⟨⟨⟨path, k⟩, r⟩, -, hl⟩ := Option.bind_eq_some_iff.mp hl
  obtain ⟨r₁, -, hl⟩ := Option.bind_eq_some_iff.mp hl
  obtain ⟨⟨x, after⟩, -, hl⟩ := Option.bind_eq_some_iff.mp hl
  dsimp only at hl
  split at hl
  · obtain ⟨root, hr, hl⟩ := Option.bind_eq_some_iff.mp hl
    obtain ⟨r₂, -, hl⟩ := Option.bind_eq_some_iff.mp hl
    cases hl
    exact h.assign hr
  · obtain ⟨root, hr, hl⟩ := Option.bind_eq_some_iff.mp hl
    obtain ⟨r₂, -, hl⟩ := Option.bind_eq_some_iff.mp hl
    cases hl
    exact h.assignBelow hr

theorem distinct_statements (h : d.root.Distinct)
    (hs : statements size fuel d cs = some d') : d'.root.Distinct := by
  induction fuel generalizing d cs with
  | zero => cases hs
  | succ fuel ih =>
    rw [statements] at hs
    split at hs
    · cases hs
      exact h
    · dsimp only at hs
      split at hs
      · obtain ⟨r, hline, hs⟩ := Option.bind_eq_some_iff.mp hs
        obtain ⟨rest, -, rfl⟩ := Option.map_eq_some_iff.mp hline
        exact ih h hs
      · split at hs
        · obtain ⟨r, hline, hs⟩ := Option.bind_eq_some_iff.mp hs
          exact ih (distinct_headerLine h hline) hs
        · obtain ⟨r, hline, hs⟩ := Option.bind_eq_some_iff.mp hs
          exact ih (distinct_keyLine h hline) hs

/-- **No name stands twice in the root table of a document.** -/
theorem distinct_parse {text : String} {entries : Entries} (h : parse text = some entries) :
    entries.Distinct := by
  obtain ⟨d, hd, rfl⟩ := Option.map_eq_some_iff.mp h
  exact distinct_statements (d := {}) List.nodup_nil hd

end KeyedLocks.Toml
