import Mathlib.Data.Prod.Lex
import Mathlib.Data.String.Basic
import KeyedLocks.Proofs.Pursuit
import KeyedLocks.Proofs.Refusal

/-!
# Locks taken in order

Identifiers are ordered by some `r`, together with their tables, and a thread only asks for what it
holds already or for what is above all it holds (`Session.Ascends`). While a thread is in the midst
of a deadlock check nobody else takes a step (`Session.Atomic`), so a check that reports a cycle has
found a chain of waiting threads from the thread that asks to the owner of the lock
(`Session.deadlocked_of_report`). Everything held along such a chain lies below what that thread is
after (`Session.Ascending.beneath_of_blocks`), and the owner would hold just that: no call fails
with a deadlock (`Session.not_deadlock_of_ordered`).
-/

namespace KeyedLocks

open Relation (TransGen)

/-- The thread is in the midst of a deadlock check. Before its first action it has read nothing. -/
def Phase.midCheck : Phase → Bool
  | .checking _ .isLocked => false
  | .checking .. => true
  | _ => false

theorem Phase.midCheck_of_checking {e : Errand} {c : Check} (hc : c ≠ .isLocked) :
    (Phase.checking e c).midCheck := by
  unfold midCheck
  split
  · next h => cases h; exact absurd rfl hc
  · rfl
  · next h => exact absurd rfl (h _ _)

theorem Phase.next_midCheck {p : Phase} {me : ThreadId} {now : Nat} {m : Memory} {st : Step}
    {e : Errand} {c : Check} (h : p.next me now m = some st) (hs : st.phase = .checking e c)
    (hc : c ≠ .isLocked) :
    ∃ c', p = .checking e c' ∧ c'.next me m e.lock = some (st.memory, .more c) := by
  have hw : st.phase.inWindow := by
    rw [hs]
    cases c with
    | isLocked => exact absurd rfl hc
    | _ => rfl
  have hv := Turn.vets (Phase.next_turns h) hw
  cases p with
  | checking e' c' =>
    obtain ⟨⟨m', v⟩, hn, rfl⟩ := Option.map_eq_some_iff.mp h
    cases v with
    | more c'' =>
      cases hs
      exact ⟨c', rfl, hn⟩
    | passed => cases e' <;> cases hs
    | cycle => cases hs
  | spend => cases next_acts h <;> cases hs
  | _ => cases hv

namespace Session

variable {x y : Session} {t w o : ThreadId} {e : Errand} {c : Check} {m : Move}
  {r : TableId × String → TableId × String → Prop} {P : TableId × String}

/-! ## Checks as one step -/

/-- Users do as they may, and nobody else takes a step in the midst of a check. -/
abbrev Atomic (x : Session) (m : Move) : Prop := x.allows m ∧ x.Secluded Phase.midCheck m

instance (x : Session) (m : Move) : Decidable (x.Secluded Phase.midCheck m) :=
  decidableSecluded rfl x m

theorem Secluded.checking (h : x.Secluded Phase.midCheck m) (hy : x.move m = some y)
    (hp : y.phase t = .checking e c) (hc : c ≠ .isLocked) :
    x.phase t = .checking e c ∧ y.memory = x.memory ∨
      ∃ c', x.phase t = .checking e c' ∧
        c'.next t x.memory e.lock = some (y.memory, .more c) := by
  have hother {u : ThreadId} (hm : m.thread? = some u) (ht : t ≠ u)
      (hx : x.phase t = .checking e c) : False := by
    have hq := h.eq_false hm ht
    rw [hx, Phase.midCheck_of_checking hc] at hq
    cases hq
  cases m with
  | call u k =>
    obtain ⟨hi, rfl⟩ := of_move_call hy
    by_cases ht : t = u
    · subst ht
      have hb : (k.begin x.system.now x.memory).2 = .checking e c :=
        (Arena.get_set_self ..).symm.trans hp
      cases k with
      | checkDeadlock => cases hb; exact absurd rfl hc
      | _ => cases hb
    · exact (hother rfl ht ((Arena.get_set_ne _ _ ht).symm.trans hp)).elim
  | act u =>
    obtain ⟨st, hst, rfl⟩ := of_move_act hy
    by_cases ht : t = u
    · subst ht
      exact .inr (Phase.next_midCheck hst ((Arena.get_set_self ..).symm.trans hp) hc)
    · exact (hother rfl ht ((Arena.get_set_ne _ _ ht).symm.trans hp)).elim
  | rouse u =>
    obtain ⟨l, hl, rfl⟩ := of_move_rouse hy
    by_cases ht : t = u
    · subst ht
      obtain ⟨e', d, hw, -⟩ := System.asleepOn_eq_some_iff.mp hl
      cases hw.symm.trans hp
    · exact (hother rfl ht hp).elim
  | tick d => cases hy; exact .inl ⟨hp, rfl⟩

theorem exact_of_checking (hx : Reach Atomic x) (hp : x.phase t = .checking e c) :
    ∃ m₀, c.Exact t e.lock m₀ x.memory := by
  induction hx generalizing c with
  | start => cases hp
  | @move x y m _ hm hy ih =>
    by_cases hc : c = .isLocked
    · rw [hc]
      exact ⟨_, .isLocked⟩
    rcases hm.2.checking hy hp hc with ⟨hp, hmem⟩ | ⟨c', hp, hn⟩
    · rw [hmem]
      exact ih hp
    · obtain ⟨m₀, he⟩ := ih hp
      cases he.next hn with
      | more he' => exact ⟨m₀, he'⟩

theorem deadlocked_of_report (hx : Reach Atomic x) (hp : x.phase t = .checking e .report) :
    x.memory.Deadlocked t e.lock := by
  obtain ⟨m₀, he⟩ := exact_of_checking hx hp
  generalize x.memory = m at he ⊢
  cases he with
  | report hd => exact hd

/-! ## Orders -/

/-- Everything that `t` holds is below `P`. -/
def Beneath (r : TableId × String → TableId × String → Prop) (x : Session) (t : ThreadId)
    (P : TableId × String) : Prop := ∀ table i, x.Holds t table i → r (table, i) P

/-- A thread may call for what it holds, and for what is above all it holds. -/
def Ascends (r : TableId × String → TableId × String → Prop) (x : Session) : Move → Prop
  | .call t (.obtain table i) => x.Holds t table i ∨ x.Beneath r t (table, i)
  | _ => True

/-- Users do as they may and keep to the order, and checks are made in one step. -/
abbrev Ordered (r : TableId × String → TableId × String → Prop) (x : Session) (m : Move) : Prop :=
  x.Atomic m ∧ x.Ascends r m

theorem exists_deal_of_holds {table : TableId} {i : String} (h : x.Holds t table i) :
    ∃ d ∈ x.deals, d.handle.table = table ∧ d.identifier = i := by
  obtain ⟨d, hd, hc⟩ := List.countP_pos_iff.mp (Nat.zero_lt_of_lt h)
  simp only [Deal.concerns, Bool.and_eq_true, decide_eq_true_eq] at hc
  exact ⟨d, hd, hc.2.1.2, hc.2.2⟩

instance [DecidableRel r] (x : Session) (t : ThreadId) (P : TableId × String) :
    Decidable (x.Beneath r t P) :=
  decidable_of_iff (∀ d ∈ x.deals, x.Holds t d.handle.table d.identifier →
      r (d.handle.table, d.identifier) P) <| by
    constructor
    · intro h table i hh
      obtain ⟨d, hd, rfl, rfl⟩ := exists_deal_of_holds hh
      exact h d hd hh
    · intro h d _ hh
      exact h _ _ hh

instance [DecidableRel r] (x : Session) (m : Move) : Decidable (x.Ascends r m) := by
  unfold Ascends
  split <;> infer_instance

/-- A thread on its way to a lock holds what it is after, or it is after more than all it holds. -/
def Ascending (r : TableId × String → TableId × String → Prop) (x : Session) : Prop :=
  ∀ t P, (x.phase t).aim? x.memory = some P → x.Holds t P.1 P.2 ∨ x.Beneath r t P

theorem ascending (hx : Reach (Ordered r) x) : x.Ascending r := by
  induction hx with
  | start => intro t P ha; cases ha
  | @move x y m hx hm hy ih =>
    have hr : x.Reachable := hx.mono fun _ _ h => h.1.1
    intro t P ha
    have hp' := Phase.pursues_of_aim? ha
    -- Until the call is over, neither its aim nor what the thread holds changes.
    have hkept (hp : (x.phase t).pursues) (ht : m = .act t → y.phase t ≠ .idle) :
        y.Holds t P.1 P.2 ∨ y.Beneath r t P := by
      have hh := holds_of_move hy fun h => ⟨hp, ht h⟩
      rw [hr.aim?_of_move hy hp hp'] at ha
      refine (ih t P ha).imp (hh ..).mpr fun hb table i h => ?_
      exact hb table i ((hh ..).mp h)
    rcases path_of_move hy hp' with ⟨-, hpath⟩ | ⟨c, rfl, hi, hc⟩ | ⟨hne, he⟩
    · refine hkept hpath.pursues fun _ hidle => ?_
      rw [hidle] at hp'
      cases hp'
    · have hh := holds_of_move (t := t) hy nofun
      rw [hc] at ha
      cases c with
      | obtain table i =>
        cases ha
        refine hm.2.imp (hh ..).mpr fun hb table i h => ?_
        exact hb table i ((hh ..).mp h)
      | take => cases hm.1.1
      | _ => cases ha
    · exact hkept (he ▸ hp') fun h => absurd h hne

/-! ## Chains of waiting threads -/

theorem Reachable.attempt_of_blocks (hx : x.Reachable) (hb : Blocks x.memory.snapshot o w) :
    ∃ a, (x.phase w).stake = .wait a ∧ (x.phase w).attempt? = some a ∧
      (x.memory.lock a.lock).mutex.owner = some o := by
  obtain ⟨l, -, ho, hw⟩ := Memory.blocks_snapshot.mp hb
  obtain ⟨e, d, s, hp, rfl⟩ := Phase.waiting_of_queue? (hx.queues.mem_iff.mp hw)
  obtain ⟨a, left, rfl⟩ := hx.exists_attempt (.inr ⟨d, s, hp⟩)
  rw [hp]
  exact ⟨a, rfl, rfl, ho⟩

/-- A thread that waits is after something that it does not hold, so all it holds is below that. -/
theorem Ascending.beneath (h : x.Ascending r) (hx : x.Reachable) {a : Attempt}
    (hs : (x.phase w).stake = .wait a) (ha : (x.phase w).aim? x.memory = some P) :
    x.Beneath r w P := (h w P ha).resolve_left (hx.not_holds_of_wait hs ha)

/-- **If all that a thread holds is below `P`, so is all that those hold who wait for it.** -/
theorem Ascending.beneath_of_blocks [IsTrans _ r] (h : x.Ascending r) (hx : x.Reachable)
    {a : Attempt} (hs : (x.phase o).stake = .wait a) (ho : x.Beneath r o P)
    (hb : Blocks x.memory.snapshot o w) :
    (∃ b, (x.phase w).stake = .wait b) ∧ x.Beneath r w P := by
  obtain ⟨b, hw, hb, hown⟩ := hx.attempt_of_blocks hb
  have hflight (l : LockId) : (x.phase o).stake.inFlight l = 0 := by
    rw [hs]
    rfl
  obtain ⟨table, ht, hh⟩ := hx.holds_of_owner hb hown hflight
  refine ⟨⟨b, hw⟩, fun table' i' hh' => ?_⟩
  have hup := h.beneath hx hw (Phase.aim?_of_table hb ht) table' i' hh'
  exact IsTrans.trans _ _ _ hup (ho _ _ hh)

theorem Ascending.beneath_of_chain [IsTrans _ r] (h : x.Ascending r) (hx : x.Reachable)
    {a : Attempt} (hs : (x.phase t).stake = .wait a) (ht : x.Beneath r t P)
    (hc : TransGen (Blocks x.memory.snapshot) t o) :
    (∃ b, (x.phase o).stake = .wait b) ∧ x.Beneath r o P := by
  induction hc with
  | single hb => exact h.beneath_of_blocks hx hs ht hb
  | tail _ hb ih =>
    obtain ⟨⟨b, hw⟩, hlow⟩ := ih
    exact h.beneath_of_blocks hx hw hlow hb

theorem Ascending.not_deadlocked [IsStrictOrder _ r] (h : x.Ascending r) (hx : x.Reachable)
    (hp : x.phase t = .checking e c) : ¬ x.memory.Deadlocked t e.lock := by
  rintro ⟨o, ho, -, hchain⟩
  obtain ⟨a, left, rfl⟩ := hx.exists_attempt (.inl ⟨c, hp⟩)
  have ha : (x.phase t).attempt? = some a := by rw [hp]; rfl
  have hs : (x.phase t).stake = .wait a := by rw [hp]; rfl
  obtain ⟨table, ht, -⟩ := hx.homed ha
  have hbelow := h.beneath hx hs (Phase.aim?_of_table ha ht)
  obtain ⟨⟨b, hw⟩, hlow⟩ := h.beneath_of_chain hx hs hbelow hchain
  -- The owner waits as well, so it has been granted what it owns.
  obtain ⟨table', ht', hh⟩ := hx.holds_of_owner ha ho fun l => by rw [hw]; rfl
  obtain rfl := Option.some.inj (ht'.symm.trans ht)
  exact irrefl _ (hlow _ _ hh)

/-- **Programs that take their locks in order are never refused as deadlocks.** -/
theorem not_deadlock_of_ordered [IsStrictOrder _ r] (hx : Reach (Ordered r) x) {s : System}
    {notes : List Note} (h : x.system.act t = some (s, notes)) (i : String) :
    .returned (.refused (.deadlock i)) ∉ notes := by
  intro hmem
  have hr : x.Reachable := hx.mono fun _ _ h => h.1.1
  obtain ⟨st, hst, rfl, -⟩ := System.act_eq_some_iff.mp h
  have hrefusal := Phase.next_refusal hst hmem rfl
  generalize hp : x.system.phase t = p at hrefusal
  cases hrefusal with
  | deadlock =>
    have hd := deadlocked_of_report (hx.mono fun _ _ h => h.1) hp
    exact (ascending hx).not_deadlocked hr hp hd

/-- Tables in the order of their making, and the identifiers of one table in that of strings. -/
def byTable (P Q : TableId × String) : Prop := toLex P < toLex Q

instance : DecidableRel byTable := fun P Q => inferInstanceAs (Decidable (toLex P < toLex Q))

instance : IsStrictOrder _ byTable where
  irrefl P := lt_irrefl (toLex P)
  trans _ _ _ := lt_trans

/-- Thread 2 takes "b" of one table and "a" of the next, and "b" once more. Thread 3 waits for
thread 1, which has "a" of the first table and asks for "b" there. -/
def climb : List Move := List.flatten
  [[.call 0 (.act (.makeTable .unbounded false)), .act 0,
      .call 0 (.act (.makeTable .unbounded false)), .act 0, .call 1 (.obtain 0 "a")],
    List.replicate 4 (.act 1), [.call 2 (.obtain 0 "b")], List.replicate 4 (.act 2),
    [.call 2 (.obtain 1 "a")], List.replicate 4 (.act 2),
    [.call 2 (.obtain 0 "b")], List.replicate 3 (.act 2),
    [.call 3 (.obtain 0 "a")], List.replicate 20 (.act 3),
    [.call 1 (.obtain 0 "b")], List.replicate 21 (.act 1)]

theorem not_deadlock_of_ordered_climb : ∃ x s notes, run (Ordered byTable) {} climb = some x ∧
    Blocks x.memory.snapshot 1 3 ∧ (x.memory.lock 1).mutex.owner = some 2 ∧
    x.system.act 1 = some (s, notes) ∧ s.phase 1 = .spend ⟨1, .unbounded, some 0⟩ none ∧
    ∀ i, .returned (.refused (.deadlock i)) ∉ notes := by
  have hx : ∃ x, run (Ordered byTable) {} climb = some x ∧ Reach (Ordered byTable) x ∧
      Blocks x.memory.snapshot 1 3 ∧ (x.memory.lock 1).mutex.owner = some 2 ∧
      ((x.system.act 1).any fun r =>
        r.1.phase 1 = .spend ⟨1, .unbounded, some 0⟩ none) = true :=
    exists_of_run (by decide +kernel)
  obtain ⟨x, hr, hx, hb, ho, hs⟩ := hx
  obtain ⟨⟨s, notes⟩, hact, hs⟩ := (Option.any_eq_true _ _).mp hs
  exact ⟨x, s, notes, hr, hb, ho, hact, of_decide_eq_true hs,
    fun i => not_deadlock_of_ordered hx hact i⟩

end Session

end KeyedLocks
