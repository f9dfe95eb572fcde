import Mathlib.Data.List.Perm.Subperm
import Mathlib.Logic.Relation
import KeyedLocks.WaitGraph

/-!
# The search of a wait graph is exact

`Search.Sound g a s` is the invariant of a search from `a`: what was found can be reached, and the
waiters of a node that is no longer pending were all found. When nothing is pending any more, the
nodes found are those that can be reached (`Sound.mem_found_iff`), so a whole search finds these and
no others (`mem_transitiveWaiters`). The waiters may be asked for one node at a time by someone
else: `Sound.absorb` is about one such turn.

A turn pushes just what it marks, so the nodes asked for and those pending are the start and the
nodes found, each of these once (`Search.Asks`). Hence a search asks for its start, and then once
for each node it finds (`search_exact`).
-/

namespace KeyedLocks

variable {α : Type}

/-- `w` waits for something `h` holds. -/
def WaitGraph.Edge (g : WaitGraph α) (h w : α) : Prop := (h, w) ∈ g.edges

namespace Search

variable {g : WaitGraph α} {a b x : α} {s : Search α}

/-- The invariant of a search from `a`. -/
structure Sound (g : WaitGraph α) (a : α) (s : Search α) : Prop where
  reached : ∀ {x}, x ∈ s.found → Relation.TransGen g.Edge a x
  known : ∀ {x}, x ∈ s.pending → x = a ∨ x ∈ s.found
  closed : ∀ {h w}, h = a ∨ h ∈ s.found → h ∉ s.pending → g.Edge h w → w ∈ s.found

theorem sound_start (g : WaitGraph α) (a : α) : Sound g a { pending := [a] } where
  reached h := nomatch h
  known h := .inl (List.mem_singleton.mp h)
  closed h hn := by
    rcases h with rfl | h
    · exact absurd (List.mem_singleton_self _) hn
    · cases h

/-- A search that is over has found what can be reached. -/
theorem Sound.mem_found_iff (h : Sound g a s) (hp : s.pending = []) :
    x ∈ s.found ↔ Relation.TransGen g.Edge a x := by
  have hn (y : α) : y ∉ s.pending := by
    rw [hp]
    exact List.not_mem_nil
  constructor
  · exact h.reached
  · intro hx
    induction hx with
    | single he => exact h.closed (.inl rfl) (hn _) he
    | tail _ he ih => exact h.closed (.inr ih) (hn _) he

/-- The books of a search from `a`: the nodes asked for and those pending are the start and the
nodes found, each of these once, and the start comes first. -/
structure Asks (a : α) (s : Search α) (asked : List α) : Prop where
  nodup : s.found.Nodup
  perm : (asked ++ s.pending).Perm (a :: s.found)
  head : (asked ++ s.pending).head? = some a

theorem asks_start (a : α) : Asks a { pending := [a] } [] := ⟨List.nodup_nil, .refl _, rfl⟩

/-! ## One turn -/

variable [DecidableEq α]

theorem mem_found_visit : x ∈ (s.visit a).found ↔ x ∈ s.found ∨ x = a := by
  unfold visit
  split
  · next ha =>
    constructor
    · exact .inl
    · rintro (h | rfl)
      · exact h
      · exact ha
  · rw [List.mem_cons, or_comm]

theorem mem_found_absorb {ws : List α} : x ∈ (s.absorb ws).found ↔ x ∈ s.found ∨ x ∈ ws := by
  induction ws generalizing s with
  | nil => simp [absorb]
  | cons w ws ih =>
    show x ∈ ((s.visit w).absorb ws).found ↔ _
    rw [ih, mem_found_visit, List.mem_cons, or_assoc]

theorem mem_pending_absorb {ws : List α} :
    x ∈ (s.absorb ws).pending ↔ x ∈ s.pending ∨ x ∈ ws ∧ x ∉ s.found := by
  induction ws generalizing s with
  | nil => simp [absorb]
  | cons w ws ih =>
    show x ∈ ((s.visit w).absorb ws).pending ↔ _
    rw [ih, mem_found_visit, List.mem_cons]
    unfold visit
    split
    · next hw =>
      apply or_congr_right
      constructor
      · rintro ⟨h, hn⟩
        exact ⟨.inr h, fun hf => hn (.inl hf)⟩
      · rintro ⟨rfl | h, hn⟩
        · exact absurd hw hn
        · refine ⟨h, ?_⟩
          rintro (hf | rfl)
          · exact hn hf
          · exact hn hw
    · next hw =>
      rw [List.mem_cons]
      by_cases hx : x = w
      · subst hx; simp [hw]
      · simp [hx]

/-- The node on top of the stack is asked for its waiters. -/
theorem Sound.absorb (h : Sound g a s) {rest ws : List α} (hp : s.pending = b :: rest)
    (hw : ∀ w, w ∈ ws ↔ g.Edge b w) : Sound g a ({ s with pending := rest }.absorb ws) where
  reached {x} hx := by
    rcases mem_found_absorb.mp hx with hx | hx
    · exact h.reached hx
    · have he := (hw x).mp hx
      rcases h.known (x := b) (by rw [hp]; exact List.mem_cons_self ..) with rfl | hb
      · exact .single he
      · exact (h.reached hb).tail he
  known {x} hx := by
    rw [mem_found_absorb]
    rcases mem_pending_absorb.mp hx with hx | ⟨hx, -⟩
    · exact (h.known (by rw [hp]; exact List.mem_cons_of_mem _ hx)).imp_right .inl
    · exact .inr (.inr hx)
  closed {u w} hu hn he := by
    rw [mem_pending_absorb, not_or] at hn
    rw [mem_found_absorb] at hu ⊢
    -- What was found just now is pending.
    have hold : u = a ∨ u ∈ s.found := by
      rcases hu with hu | hu | hu
      · exact .inl hu
      · exact .inr hu
      · by_cases hf : u ∈ s.found
        · exact .inr hf
        · exact absurd ⟨hu, hf⟩ hn.2
    by_cases hub : u = b
    · exact .inr ((hw w).mpr (hub ▸ he))
    · refine .inl (h.closed hold ?_ he)
      rw [hp, List.mem_cons, not_or]
      exact ⟨hub, hn.1⟩

theorem visit_eq (s : Search α) (a : α) : ∃ new, s.visit a = ⟨new ++ s.found, new ++ s.pending⟩ ∧
    (s.found.Nodup → (new ++ s.found).Nodup) := by
  unfold visit
  split
  · exact ⟨[], rfl, id⟩
  · next ha => exact ⟨[a], rfl, fun hs => List.nodup_cons.mpr ⟨ha, hs⟩⟩

theorem absorb_eq (s : Search α) (ws : List α) : ∃ new,
    s.absorb ws = ⟨new ++ s.found, new ++ s.pending⟩ ∧
      (s.found.Nodup → (new ++ s.found).Nodup) := by
  induction ws generalizing s with
  | nil => exact ⟨[], rfl, id⟩
  | cons w ws ih =>
    obtain ⟨new, hv, hn⟩ := s.visit_eq w
    obtain ⟨more, ha, hm⟩ := ih (s.visit w)
    rw [hv] at ha hm
    refine ⟨more ++ new, ?_, fun hs => ?_⟩
    · show (s.visit w).absorb ws = _
      rw [hv, ha, List.append_assoc, List.append_assoc]
    · rw [List.append_assoc]
      exact hm (hn hs)

theorem Asks.absorb {asked rest : List α} (h : s.Asks a asked) (hp : s.pending = b :: rest)
    (ws : List α) : ({ s with pending := rest }.absorb ws).Asks a (asked ++ [b]) := by
  obtain ⟨new, ha, hn⟩ := absorb_eq { s with pending := rest } ws
  have hasked : asked ++ s.pending = asked ++ [b] ++ rest := by
    rw [hp, List.append_assoc, List.singleton_append]
  have hperm := h.perm
  have hhead := h.head
  rw [hasked] at hperm hhead
  rw [ha]
  refine ⟨hn h.nodup, ?_, ?_⟩
  · calc asked ++ [b] ++ (new ++ rest)
      _ |>.Perm (new ++ (asked ++ [b] ++ rest)) := List.perm_append_comm_assoc ..
      _ |>.Perm (new ++ a :: s.found) := hperm.append_left new
      _ |>.Perm (a :: (new ++ s.found)) := List.perm_middle
  · -- If nobody was asked before, the start is pending on its own.
    cases asked with
    | nil => exact hhead
    | cons => exact hhead

end Search

/-! ## Whole searches -/

namespace WaitGraph

variable [DecidableEq α] {g : WaitGraph α} {a x : α}

theorem mem_waitersOf {h w : α} : w ∈ g.waitersOf h ↔ g.Edge h w := by
  unfold waitersOf Edge
  simp only [List.mem_map, List.mem_filter, decide_eq_true_eq, Prod.exists, exists_eq_right]

theorem mem_searchFrom {s : Search α} (h : s.Sound g a) (asked : List α) :
    x ∈ (g.searchFrom s asked).1 ↔ Relation.TransGen g.Edge a x := by
  induction s, asked using searchFrom.induct g with
  | case1 s asked hp =>
    unfold searchFrom
    split
    · exact h.mem_found_iff hp
    · next hp' => rw [hp] at hp'; cases hp'
  | case2 s asked b rest hp ih =>
    unfold searchFrom
    split
    · next hp' => rw [hp] at hp'; cases hp'
    · next b' rest' hp' =>
      obtain ⟨rfl, rfl⟩ := List.cons.inj (hp.symm.trans hp')
      exact ih (h.absorb hp fun _ => mem_waitersOf)

/-- **The search is exact.** -/
theorem mem_transitiveWaiters : x ∈ g.transitiveWaiters a ↔ Relation.TransGen g.Edge a x :=
  mem_searchFrom (Search.sound_start g a) []

/-- A search that is over has asked for its start and for each node it has found. -/
theorem searchFrom_asks {s : Search α} {asked : List α} (h : s.Asks a asked) :
    (g.searchFrom s asked).1.Nodup ∧ ∃ rest, (g.searchFrom s asked).2 = a :: rest ∧
      rest.Perm (g.searchFrom s asked).1 := by
  induction s, asked using searchFrom.induct g with
  | case1 s asked hp =>
    unfold searchFrom
    split
    · have hperm := h.perm
      have hhead := h.head
      rw [hp, List.append_nil] at hperm hhead
      obtain ⟨rest, rfl⟩ := List.head?_eq_some_iff.mp hhead
      exact ⟨h.nodup, rest, rfl, hperm.cons_inv⟩
    · next hp' => rw [hp] at hp'; cases hp'
  | case2 s asked b rest hp ih =>
    unfold searchFrom
    split
    · next hp' => rw [hp] at hp'; cases hp'
    · next b' rest' hp' =>
      obtain ⟨rfl, rfl⟩ := List.cons.inj (hp.symm.trans hp')
      exact ih (h.absorb hp _)

theorem transitiveWaiters_subset (g : WaitGraph α) (a : α) :
    g.transitiveWaiters a ⊆ g.edges.map (·.2) := by
  intro x hx
  have hlast : ∃ h, g.Edge h x := by
    cases mem_transitiveWaiters.mp hx with
    | single he => exact ⟨a, he⟩
    | tail _ he => exact ⟨_, he⟩
  obtain ⟨h, he⟩ := hlast
  exact List.mem_map_of_mem he

/-- **The search is exact and asks once.** It finds the nodes that are reached by one edge or more,
so the start only if that lies on a cycle. It asks for the start, then once for each node it finds,
and for no other. So it is over after one turn more than there are edges, at the latest. -/
theorem search_exact (g : WaitGraph α) (a : α) :
    (g.transitiveWaiters a).Nodup ∧
    (∀ x, x ∈ g.transitiveWaiters a ↔ Relation.TransGen g.Edge a x) ∧
    (∃ rest, g.queries a = a :: rest ∧ rest.Nodup ∧
      ∀ x, x ∈ rest ↔ Relation.TransGen g.Edge a x) ∧
    (g.queries a).count a = (if a ∈ g.transitiveWaiters a then 2 else 1) ∧
    (g.queries a).length = (g.transitiveWaiters a).length + 1 ∧
    (g.queries a).length ≤ g.edges.length + 1 := by
  obtain ⟨hnodup, rest, hqueries, hperm⟩ := g.searchFrom_asks (Search.asks_start a)
  change (g.transitiveWaiters a).Nodup at hnodup
  change g.queries a = a :: rest at hqueries
  change rest.Perm (g.transitiveWaiters a) at hperm
  have hmem (x : α) : x ∈ g.transitiveWaiters a ↔ Relation.TransGen g.Edge a x :=
    mem_transitiveWaiters
  have hlength : (g.queries a).length = (g.transitiveWaiters a).length + 1 := by
    rw [hqueries, List.length_cons, hperm.length_eq]
  refine ⟨hnodup, hmem, ⟨rest, hqueries, hperm.nodup_iff.mpr hnodup, fun x => ?_⟩, ?_, hlength, ?_⟩
  · rw [hperm.mem_iff, hmem]
  · rw [hqueries, List.count_cons_self, hperm.count_eq]
    split
    · next ha => rw [hnodup.count, if_pos ha]
    · next ha => rw [hnodup.count, if_neg ha]
  · have hle := (hnodup.subperm (g.transitiveWaiters_subset a)).length_le
    rw [List.length_map] at hle
    omega

/-- A start on a cycle is asked for again. -/
example : (⟨[(1, 2), (1, 3), (2, 1), (1, 2)]⟩ : WaitGraph Nat).queries 1 = [1, 3, 2, 1] := by cbv

end WaitGraph

end KeyedLocks
