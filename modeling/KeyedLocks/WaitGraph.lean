/-!
# Wait graphs and their search

An edge `(h, w)` of a `WaitGraph` says that `w` waits for something `h` holds. `Search` keeps the
nodes found and a stack of those whose waiters were not asked for yet; `absorb` marks a node when
it is pushed, so no node is pushed twice. The start is not marked: it is found only through a
cycle, and then asked for once more. `WaitGraph.search` runs a search to its end and also lists
the nodes asked for, in order.
-/

namespace KeyedLocks

/-- The nodes found so far, latest first, and the stack of those still to be asked for. -/
structure Search (α : Type) where
  found : List α := []
  pending : List α
deriving Repr, DecidableEq

namespace Search

variable {α : Type} [DecidableEq α]

def start (a : α) : Search α := { pending := [a] }

/-- Mark and push a node, unless it is marked. -/
def visit (s : Search α) (a : α) : Search α :=
  if a ∈ s.found then s else { found := a :: s.found, pending := a :: s.pending }

/-- Take in the direct waiters of a node. -/
def absorb (s : Search α) (waiters : List α) : Search α := waiters.foldl visit s

end Search

/-- Edges from a holder to a thread that waits for it. -/
structure WaitGraph (α : Type) where
  edges : List (α × α)
deriving Repr, DecidableEq

namespace WaitGraph

variable {α : Type} [DecidableEq α]

/-- The direct waiters of `h`, in the order of the edges, repetitions kept. -/
def waitersOf (g : WaitGraph α) (h : α) : List α := (g.edges.filter (·.1 = h)).map (·.2)

/-- The ends of edges that are not marked yet. -/
def unmarked (g : WaitGraph α) (found : List α) : Nat := (g.edges.map (·.2)).countP (· ∉ found)

theorem countP_unmarked_lt {l : List α} {a : α} {found : List α} (ha : a ∈ l) (hf : a ∉ found) :
    l.countP (· ∉ a :: found) < l.countP (· ∉ found) := by
  induction l with
  | nil => cases ha
  | cons b l ih =>
    simp only [List.countP_cons]
    by_cases hb : b = a
    · subst hb
      have : l.countP (· ∉ b :: found) ≤ l.countP (· ∉ found) :=
        List.countP_mono_left (fun x _ hx => by simp at hx ⊢; exact hx.2)
      simp [hf]
      simp at this
      omega
    · have := ih ((List.mem_cons.mp ha).resolve_left (Ne.symm hb))
      by_cases hbf : b ∈ found <;> simp [hb, hbf] at this ⊢ <;> omega

theorem unmarked_absorb_le (g : WaitGraph α) (ws : List α) (s : Search α)
    (h : ∀ w ∈ ws, w ∈ g.edges.map (·.2)) :
    2 * g.unmarked (s.absorb ws).found + (s.absorb ws).pending.length ≤
      2 * g.unmarked s.found + s.pending.length := by
  induction ws generalizing s with
  | nil => simp [Search.absorb]
  | cons w ws ih =>
    have hs := ih (s.visit w) (fun x hx => h x (List.mem_cons_of_mem _ hx))
    refine Nat.le_trans hs ?_
    unfold Search.visit
    split
    · exact Nat.le_refl _
    · next hw =>
      have := countP_unmarked_lt (h w (List.mem_cons_self ..)) hw
      simp only [unmarked, List.length_cons] at *
      omega

theorem waitersOf_subset (g : WaitGraph α) (h : α) :
    ∀ w ∈ g.waitersOf h, w ∈ g.edges.map (·.2) := by
  intro w hw
  simp only [waitersOf, List.mem_map, List.mem_filter] at hw
  obtain ⟨e, ⟨he, _⟩, rfl⟩ := hw
  exact List.mem_map_of_mem he

/-- Carry a search on until nothing is pending. -/
def searchFrom (g : WaitGraph α) (s : Search α) (asked : List α) : List α × List α :=
  match _hp : s.pending with
  | [] => (s.found, asked)
  | h :: rest =>
    g.searchFrom ({ s with pending := rest }.absorb (g.waitersOf h)) (asked ++ [h])
termination_by 2 * g.unmarked s.found + s.pending.length
decreasing_by
  have := g.unmarked_absorb_le (g.waitersOf h) { s with pending := rest } (g.waitersOf_subset h)
  simp only [_hp, List.length_cons] at *
  omega

/-- Everything that waits for `start`, directly or not, and the nodes asked for, in order. -/
def search (g : WaitGraph α) (start : α) : List α × List α := g.searchFrom (.start start) []

/-- The nodes reached from `start` by one edge or more. -/
def transitiveWaiters (g : WaitGraph α) (start : α) : List α := (g.search start).1

/-- The nodes whose direct waiters a search from `start` asks for, in order. -/
def queries (g : WaitGraph α) (start : α) : List α := (g.search start).2

end WaitGraph

end KeyedLocks
