import Mathlib.Data.Set.Card
import KeyedLocks.Proofs.Ledger
import KeyedLocks.Proofs.Sleep

/-!
# Sessions at rest

A session is at rest when each thread is between two calls, or asleep in a wait with no wake-up on
its way (`Session.AtRest`). Then no thread is about to try a lock or to dispose of one, so a table
has entries for the identifiers that are held and for no others (`Session.Reachable.accurate`):
no acquisition that failed and no release that lost a race left one behind.
-/

namespace KeyedLocks

namespace Session

variable {x : Session} {t : ThreadId} {table : TableId} {identifier : String} {l : LockId}

/-- Every thread is between two calls, or asleep with no wake-up on its way. -/
def AtRest (x : Session) : Prop := x.system.AtRest

instance (x : Session) : Decidable x.AtRest := inferInstanceAs (Decidable x.system.AtRest)

/-- What a table has agrees with what threads hold. -/
structure Accurate (x : Session) (table : TableId) : Prop where
  /-- There is one entry at most for each identifier. -/
  nodup : ((x.memory.table table).entries.map (·.1)).Nodup
  /-- There is one for each identifier some thread holds, and no other. -/
  registered : ∀ identifier, ((x.memory.table table).find? identifier).isSome ↔
    ∃ t, x.Holds t table identifier
  /-- The lock is open, and the thread owns it with as many holds as it was granted and has not
  given back. -/
  lock : ∀ {t identifier}, x.Holds t table identifier →
    ∃ l, (x.memory.table table).find? identifier = some l ∧
      (x.memory.lock l).closed = false ∧ (x.memory.lock l).mutex.owner = some t ∧
      (x.memory.lock l).mutex.holds =
        x.obtains t table identifier - x.releases t table identifier
  activeLocks : x.memory.activeLocks table = {i | ∃ t, x.Holds t table i}.ncard
  isLocked : ∀ identifier, x.memory.isLocked table identifier ↔ ∃ t, x.Holds t table identifier

theorem AtRest.stake (hr : x.AtRest) (h : x.Orderly) (t : ThreadId) :
    (x.phase t).stake = .none ∨ ∃ a, (x.phase t).stake = .wait a := by
  rcases hr t with (hi : x.phase t = .idle) | hs
  · rw [hi]
    exact .inl rfl
  · unfold System.asleepOn at hs
    split at hs
    · next e deadline he =>
      cases e with
      | attempt a left => exact .inr ⟨a, by rw [phase, he]; rfl⟩
      | plain l =>
        have hk := h.2.knows t
        simp only [phase, he] at hk
        exact hk.elim
    · cases hs

theorem AtRest.held_eq (hr : x.AtRest) (h : x.Orderly) (l : LockId) (t : ThreadId) :
    (x.memory.holdings.held l t : Int) = outstanding x.deals t l := by
  rw [h.2.account]
  rcases hr.stake h t with hs | ⟨a, hs⟩ <;> rw [hs] <;> exact Int.add_zero _

/-- Nobody is about to try a lock or to dispose of it, so someone holds it. -/
theorem AtRest.exists_holds (hr : x.AtRest) (h : x.Orderly)
    (hl : (identifier, l) ∈ (x.memory.table table).entries) :
    ∃ t, x.Holds t table identifier := by
  rcases h.2.minded ⟨table, identifier, hl⟩ with ⟨t, ht⟩ | ⟨t, ht⟩
  · exact ⟨t, (h.holds_iff hl).mpr ht⟩
  · rcases hr.stake h t with hs | ⟨a, hs⟩ <;> rw [hs] at ht <;> exact ht.elim

theorem AtRest.lock (hr : x.AtRest) (h : x.Orderly)
    (hl : (identifier, l) ∈ (x.memory.table table).entries) (ht : x.Holds t table identifier) :
    (x.memory.lock l).closed = false ∧ (x.memory.lock l).mutex.owner = some t ∧
      (x.memory.lock l).mutex.holds =
        x.obtains t table identifier - x.releases t table identifier := by
  have ho := (h.holds_iff hl).mp ht
  have hown : (x.memory.lock l).mutex.owner = some t :=
    Mutex.owner_of_holdsOf (h.held_of_outstanding ho)
  have hheld : x.memory.holdings.held l t = (x.memory.lock l).mutex.holds := by
    show (x.memory.lock l).mutex.holdsOf t = _
    rw [Mutex.holdsOf, if_pos hown]
  have hn := hr.held_eq h l t
  rw [hheld, ← h.2.entry hl t] at hn
  refine ⟨h.2.live ho, hown, ?_⟩
  simp only [net] at hn
  simp only [obtains, releases]
  omega

theorem AtRest.isSome_find?_iff (hr : x.AtRest) (h : x.Orderly) (table : TableId)
    (identifier : String) : ((x.memory.table table).find? identifier).isSome ↔
      ∃ t, x.Holds t table identifier := by
  rw [Option.isSome_iff_exists]
  constructor
  · rintro ⟨l, hl⟩
    exact hr.exists_holds h (h.find?_eq_some_iff.mp hl)
  · rintro ⟨t, ht⟩
    obtain ⟨l, hl⟩ := h.entry_of_holds ht
    exact ⟨l, h.find?_eq_some_iff.mpr hl⟩

theorem AtRest.activeLocks_eq (hr : x.AtRest) (h : x.Orderly) (table : TableId) :
    x.memory.activeLocks table = {i | ∃ t, x.Holds t table i}.ncard := by
  have hnd : ((x.memory.table table).entries.map (·.1)).Nodup := h.2.tidy.nodup table
  have hset : {i | ∃ t, x.Holds t table i} =
      (((x.memory.table table).entries.map (·.1)).toFinset : Set String) := by
    ext i
    rw [Set.mem_ofPred_eq, ← hr.isSome_find?_iff h, Option.isSome_iff_exists]
    simp only [h.find?_eq_some_iff, Finset.mem_coe, List.mem_toFinset, List.mem_map, Prod.exists,
      exists_and_right, exists_eq_right]
  rw [hset, Set.ncard_coe_finset, List.toFinset_card_of_nodup hnd, List.length_map]
  rfl

theorem AtRest.isLocked_iff (hr : x.AtRest) (h : x.Orderly) (table : TableId)
    (identifier : String) :
    x.memory.isLocked table identifier ↔ ∃ t, x.Holds t table identifier := by
  rw [← hr.isSome_find?_iff h]
  show (((x.memory.table table).find? identifier).map x.memory.lock).any (·.mutex.isLocked) = true ↔
    _
  rcases hl : (x.memory.table table).find? identifier with _ | l
  · simp
  · have hmem := h.find?_eq_some_iff.mp hl
    obtain ⟨t, ht⟩ := hr.exists_holds h hmem
    have hown : (x.memory.lock l).mutex.owner = some t := (hr.lock h hmem ht).2.1
    simp [Mutex.isLocked, hown]

/-- **No entry is lost, and none is left behind.** -/
theorem Reachable.accurate (hx : x.Reachable) (hr : x.AtRest) (table : TableId) :
    x.Accurate table where
  nodup := hx.orderly.2.tidy.nodup table
  registered := hr.isSome_find?_iff hx.orderly table
  lock ht := by
    have h := hx.orderly
    obtain ⟨l, hl⟩ := h.entry_of_holds ht
    exact ⟨l, h.find?_eq_some_iff.mpr hl, hr.lock h hl ht⟩
  activeLocks := hr.activeLocks_eq hx.orderly table
  isLocked := hr.isLocked_iff hx.orderly table

/-- Thread 1 has taken "a" twice and given it back once, and thread 2 sleeps until it is free.
Thread 3 has had "b" and has none of it left. -/
def lull : List Move := List.flatten
  [[.call 0 (.act (.makeTable .unbounded false)), .act 0,
      .call 1 (.obtain 0 "a"), .act 1, .act 1, .act 1, .act 1,
      .call 3 (.obtain 0 "b"), .act 3, .act 3, .act 3, .act 3,
      .call 1 (.obtain 0 "a"), .act 1, .act 1, .act 1,
      .call 2 (.obtain 0 "a")], List.replicate 18 (.act 2),
    [.call 3 (.release ⟨0, 1⟩)], List.replicate 8 (.act 3),
    [.call 1 (.release ⟨0, 0⟩)], List.replicate 4 (.act 1)]

theorem accurate_lull : ∃ x, run Allowed {} lull = some x ∧ x.AtRest ∧ x.Accurate 0 ∧
    x.Holds 1 0 "a" ∧ x.system.asleepOn 2 = some 0 ∧ x.memory.activeLocks 0 = 1 := by
  have hx : ∃ x, run Allowed {} lull = some x ∧ x.Reachable ∧
      x.AtRest ∧ x.Holds 1 0 "a" ∧ x.system.asleepOn 2 = some 0 ∧ x.memory.activeLocks 0 = 1 :=
    exists_of_run (by decide +kernel)
  obtain ⟨x, hr, hx, h₀, h₁, h₂, h₃⟩ := hx
  exact ⟨x, hr, h₀, Reachable.accurate hx h₀ 0, h₁, h₂, h₃⟩

end Session

end KeyedLocks
