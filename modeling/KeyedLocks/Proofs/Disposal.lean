import Mathlib.Logic.Function.Basic
import KeyedLocks.Proofs.Registration
import KeyedLocks.Proofs.Shift

/-!
# The life of a lock

`Orderly H σ D` is the invariant of holdings `H`, stakes `σ` and deals `D` that keeps a lock from
being closed under a thread that was granted a hold on it, and from being left behind in a table:

- every hold was either granted and not given back, or is in the hands of a thread that probes the
  lock, has just taken it, or backs out of it (`account`);
- on a lock someone was granted a hold on, the mark is not set (`live`); then its table has it;
- someone looks after every lock a table has: a thread with a hold on it, or one that is about to
  try it or to dispose of it (`minded`).

`Orderly.shift` says that every shift keeps it.
-/

namespace KeyedLocks

/-! ## Counting deals -/

/-- Holds granted minus holds given back, among the deals with `p`. -/
def net (D : List Deal) (p : Deal → Bool) : Int :=
  (D.countP fun d => d.granted && p d : Nat) - (D.countP fun d => !d.granted && p d : Nat)

/-- The holds on a lock that `t` was granted and has not given back. -/
def outstanding (D : List Deal) (t : ThreadId) (l : LockId) : Int :=
  net D fun d => d.thread = t && d.handle.lock = l

/-- One deal changes a balance by one. -/
def Deal.worth (d : Deal) : Int := if d.granted then 1 else -1

theorem net_cons (d : Deal) (D : List Deal) (p : Deal → Bool) :
    net (d :: D) p = net D p + if p d then d.worth else 0 := by
  simp only [net, Deal.worth, List.countP_cons]
  cases d.granted <;> cases p d <;> simp <;> omega

theorem outstanding_cons (d : Deal) (D : List Deal) (t : ThreadId) (l : LockId) :
    outstanding (d :: D) t l =
      outstanding D t l + if d.thread = t ∧ d.handle.lock = l then d.worth else 0 := by
  rw [outstanding, net_cons]
  simp only [Bool.and_eq_true, decide_eq_true_eq]
  rfl

theorem outstanding_cons_self (d : Deal) (D : List Deal) :
    outstanding (d :: D) d.thread d.handle.lock =
      outstanding D d.thread d.handle.lock + d.worth := by
  rw [outstanding_cons, if_pos ⟨rfl, rfl⟩]

theorem outstanding_cons_of_ne {d : Deal} (D : List Deal) {t : ThreadId} {l : LockId}
    (h : ¬ (d.thread = t ∧ d.handle.lock = l)) :
    outstanding (d :: D) t l = outstanding D t l := by
  rw [outstanding_cons, if_neg h, Int.add_zero]

/-! ## What a stake stands for -/

/-- The stages of a release that have the hold of the probe. -/
def ReleaseStage.probing : ReleaseStage → Bool
  | .count | .close | .remove | .unprobe => true
  | .unlock | .notify | .probe | .notifyProbe => false

/-- The stages of a release that will see to it that an unused lock goes. -/
def ReleaseStage.minds : ReleaseStage → Bool
  | .notify | .probe | .count | .close | .remove => true
  | .unlock | .unprobe | .notifyProbe => false

namespace Stake

/-- The holds of the thread that it was not granted. -/
def inFlight : Stake → LockId → Nat
  | .taken a, l | .back a, l => if a.lock = l then 1 else 0
  | .release h s, l => if s.probing ∧ h.lock = l then 1 else 0
  | _, _ => 0

/-- The thread will use the lock or take it out of its table, or else someone has a hold on it. -/
def Minds : Stake → LockId → Prop
  | .seek a, l | .taken a, l | .back a, l | .discard a, l => a.lock = l
  | .release h s, l => s.minds ∧ h.lock = l
  | _, _ => False

theorem inFlight_release {s : ReleaseStage} (hs : s.probing = false) (h : Handle) (l : LockId) :
    (release h s).inFlight l = 0 := by
  unfold inFlight
  apply if_neg
  rw [hs]
  exact fun hp => Bool.false_ne_true hp.1

theorem inFlight_probing {s : ReleaseStage} (hs : s.probing = true) (h : Handle) :
    (release h s).inFlight h.lock = 1 := if_pos ⟨hs, rfl⟩

theorem cases_of_inFlight {p : Stake} {l : LockId} (h : p.inFlight l ≠ 0) :
    (∃ a, (p = .taken a ∨ p = .back a) ∧ a.lock = l) ∨
      ∃ g s, p = .release g s ∧ s.probing = true ∧ g.lock = l := by
  cases p with
  | none | raw | seek | wait | discard => exact absurd rfl h
  | taken a =>
    have hl : a.lock = l := by
      by_contra hn
      exact h (if_neg hn)
    exact .inl ⟨a, .inl rfl, hl⟩
  | back a =>
    have hl : a.lock = l := by
      by_contra hn
      exact h (if_neg hn)
    exact .inl ⟨a, .inr rfl, hl⟩
  | release g s =>
    have hl : s.probing = true ∧ g.lock = l := by
      by_contra hn
      exact h (if_neg hn)
    exact .inr ⟨g, s, rfl, hl⟩

/-- What a thread relies on: the lock is at home in the table the thread works on, and in some
stages it is closed, or nobody was granted a hold on it. -/
def Knows (H : Holdings) (D : List Deal) (t : ThreadId) : Stake → Prop
  | .none => True
  | .raw => False
  | .seek a | .wait a | .taken a => ∃ table, a.table = some table ∧ H.Homed table a.lock
  | .back a | .discard a =>
    (∃ table, a.table = some table ∧ H.Homed table a.lock) ∧ H.closed a.lock = true
  | .release h s => H.Homed h.table h.lock ∧
    match s with
    | .close => outstanding D t h.lock = 0
    | .remove => H.closed h.lock = true
    | .unprobe => 0 < outstanding D t h.lock ∨ ¬ H.Registered h.lock
    | .unlock | .notify | .probe | .count | .notifyProbe => True

theorem Knows.mono {H H' : Holdings} {D D' : List Deal} {t : ThreadId} (he : H.Evolves H')
    (hd : ∀ l, outstanding D' t l = outstanding D t l) {p : Stake} (h : p.Knows H D t) :
    p.Knows H' D' t := by
  cases p with
  | none => trivial
  | raw => exact h
  | seek a | wait a | taken a => exact h.imp fun _ => .imp_right he.homed
  | back a | discard a =>
    obtain ⟨⟨table, ht, hh⟩, hc⟩ := h
    exact ⟨⟨table, ht, he.homed hh⟩, he.closed hh.known hc⟩
  | release g s =>
    obtain ⟨hh, hs⟩ := h
    refine ⟨he.homed hh, ?_⟩
    cases s with
    | close => exact (hd _).trans hs
    | remove => exact he.closed hh.known hs
    | unprobe => exact hs.imp (fun h => (hd _).symm ▸ h) (he.gone hh.known)
    | unlock | notify | probe | count | notifyProbe => trivial

theorem Knows.lt_of_inFlight {H : Holdings} {D : List Deal} {t : ThreadId} {p : Stake} {l : LockId}
    (h : p.Knows H D t) (hf : p.inFlight l ≠ 0) : l < H.fresh := by
  rcases cases_of_inFlight hf with ⟨a, rfl | rfl, rfl⟩ | ⟨g, s, rfl, -, rfl⟩
  · obtain ⟨table, -, hh⟩ := h
    exact hh.known
  · obtain ⟨⟨table, -, hh⟩, -⟩ := h
    exact hh.known
  · exact h.1.known

theorem Knows.minds_of_inFlight {H : Holdings} {D : List Deal} {t : ThreadId} {p : Stake}
    {l : LockId} (h : p.Knows H D t) (hl : H.Registered l) (hf : p.inFlight l ≠ 0) :
    p.Minds l ∨ 0 < outstanding D t l := by
  rcases cases_of_inFlight hf with ⟨a, rfl | rfl, rfl⟩ | ⟨g, s, rfl, hs, rfl⟩
  · exact .inl rfl
  · exact .inl rfl
  · cases s with
    | unprobe => exact .inr (h.2.resolve_right (not_not_intro hl))
    | count | close | remove => exact .inl ⟨rfl, rfl⟩
    | unlock | notify | probe | notifyProbe => cases hs

end Stake

/-! ## The invariant -/

structure Orderly (H : Holdings) (σ : ThreadId → Stake) (D : List Deal) : Prop where
  tidy : H.Tidy
  /-- One thread at a time has holds on a lock. -/
  exclusive : ∀ {l t u}, 0 < H.held l t → 0 < H.held l u → t = u
  account : ∀ l t, (H.held l t : Int) = outstanding D t l + (σ t).inFlight l
  nonneg : ∀ t l, 0 ≤ outstanding D t l
  issued : ∀ d ∈ D, H.Homed d.handle.table d.handle.lock
  knows : ∀ t, (σ t).Knows H D t
  live : ∀ {t l}, 0 < outstanding D t l → H.closed l = false
  /-- The holds on a registered identifier are those on its lock. -/
  entry : ∀ {table i l}, (i, l) ∈ H.entries table → ∀ t,
    net D (·.concerns t table i) = outstanding D t l
  absent : ∀ {table i}, (H.entries table).lookup i = none → ∀ t,
    net D (·.concerns t table i) = 0
  minded : ∀ {l}, H.Registered l → (∃ t, 0 < outstanding D t l) ∨ ∃ t, (σ t).Minds l

theorem orderly_start : Orderly (Memory.holdings {}) (fun _ => .none) [] where
  tidy := Holdings.tidy_default
  exclusive h := absurd h (Nat.lt_irrefl 0)
  account _ _ := rfl
  nonneg _ _ := Int.le_refl _
  issued _ h := nomatch h
  knows _ := trivial
  live h := absurd h (Int.lt_irrefl 0)
  entry h := nomatch h
  absent _ _ := rfl
  minded h := nomatch h.choose_spec.choose_spec

namespace Orderly

open Function (update)
open Holdings (mem_create)

variable {H : Holdings} {σ : ThreadId → Stake} {D : List Deal} {me : ThreadId} {s p : Stake}

theorem minded_of_held (h : Orderly H σ D) {l : LockId} {t : ThreadId} (hl : H.Registered l)
    (ht : 0 < H.held l t) : 0 < outstanding D t l ∨ (σ t).Minds l := by
  have ha := h.account l t
  by_cases hf : (σ t).inFlight l = 0
  · exact .inl (by omega)
  · exact ((h.knows t).minds_of_inFlight hl hf).symm

theorem outstanding_of_closed (h : Orderly H σ D) {l : LockId} (hc : H.closed l = true)
    (t : ThreadId) : outstanding D t l = 0 := by
  rcases Int.lt_or_eq_of_le (h.nonneg t l) with hp | hz
  · rw [h.live hp] at hc
    cases hc
  · exact hz.symm

theorem outstanding_fresh (h : Orderly H σ D) (t : ThreadId) : outstanding D t H.fresh = 0 := by
  have hc (b : Deal → Bool) :
      (D.countP fun d => b d && (decide (d.thread = t) && decide (d.handle.lock = H.fresh))) =
        0 := by
    rw [List.countP_eq_zero]
    intro d hd
    have hlt : d.handle.lock < H.fresh := (h.issued d hd).known
    simp only [Bool.and_eq_true, decide_eq_true_eq]
    rintro ⟨-, -, hl⟩
    exact Nat.ne_of_lt hlt hl
  unfold outstanding net
  rw [hc, hc]
  rfl

theorem minded_update (h : Orderly H σ D) {D' : List Deal} {l : LockId} (hl : H.Registered l)
    (ho : ∀ t, 0 < outstanding D t l → (∃ u, 0 < outstanding D' u l) ∨ p.Minds l)
    (hm : (σ me).Minds l →
      p.Minds l ∨ (∃ u, 0 < outstanding D' u l) ∨ ∃ u, u ≠ me ∧ (σ u).Minds l) :
    (∃ u, 0 < outstanding D' u l) ∨ ∃ u, (update σ me p u).Minds l := by
  have hme (hp : p.Minds l) : ∃ u, (update σ me p u).Minds l :=
    ⟨me, by rw [Function.update_self]; exact hp⟩
  have hother {u : ThreadId} (hu : u ≠ me) (hs : (σ u).Minds l) :
      ∃ u, (update σ me p u).Minds l := ⟨u, by rw [Function.update_of_ne hu]; exact hs⟩
  rcases h.minded hl with ⟨t, ht⟩ | ⟨t, ht⟩
  · exact (ho t ht).imp_right hme
  · by_cases htm : t = me
    · subst htm
      rcases hm ht with hp | hu | ⟨u, hu, hs⟩
      · exact .inr (hme hp)
      · exact .inl hu
      · exact .inr (hother hu hs)
    · exact .inr (hother htm ht)

theorem knows_update (h : Orderly H σ D) {H' : Holdings} {D' : List Deal} (he : H.Evolves H')
    (hd : ∀ t, t ≠ me → ∀ l, outstanding D' t l = outstanding D t l) (hk : p.Knows H' D' me)
    (t : ThreadId) : (update σ me p t).Knows H' D' t := by
  by_cases ht : t = me
  · subst ht; rw [Function.update_self]; exact hk
  · rw [Function.update_of_ne ht]; exact (h.knows t).mono he (hd t ht)

theorem account_update (h : Orderly H σ D) {held : LockId → ThreadId → Nat} {D' : List Deal}
    (hh : ∀ l t, t ≠ me → held l t = H.held l t)
    (hd : ∀ t, t ≠ me → ∀ l, outstanding D' t l = outstanding D t l)
    (hme : ∀ l, (held l me : Int) = outstanding D' me l + p.inFlight l) (l : LockId)
    (t : ThreadId) : (held l t : Int) = outstanding D' t l + (update σ me p t).inFlight l := by
  by_cases ht : t = me
  · subst ht; rw [Function.update_self]; exact hme l
  · rw [Function.update_of_ne ht, hh l t ht, hd t ht l]; exact h.account l t

theorem inFlight_update (hf : ∀ l, p.inFlight l = (σ me).inFlight l) (t : ThreadId) (l : LockId) :
    (update σ me p t).inFlight l = (σ t).inFlight l := by
  by_cases ht : t = me
  · rw [ht, Function.update_self]
    exact hf l
  · rw [Function.update_of_ne ht]

/-- `me` goes on to `p`, and at most its holds change. -/
theorem turn (h : Orderly H σ D) (held : LockId → ThreadId → Nat)
    (hx : ∀ {l t u}, 0 < held l t → 0 < held l u → t = u)
    (hh : ∀ l t, t ≠ me → held l t = H.held l t)
    (hme : ∀ l, (held l me : Int) = outstanding D me l + p.inFlight l)
    (hk : p.Knows { H with held } D me)
    (hm : ∀ l, H.Registered l → (σ me).Minds l →
      p.Minds l ∨ (∃ u, 0 < outstanding D u l) ∨ ∃ u, u ≠ me ∧ (σ u).Minds l) :
    Orderly { H with held } (update σ me p) D where
  tidy := h.tidy.reheld held
  exclusive := hx
  account := h.account_update hh (fun _ _ _ => rfl) hme
  nonneg := h.nonneg
  issued d hd := (H.evolves_reheld held).homed (h.issued d hd)
  knows := h.knows_update (H.evolves_reheld held) (fun _ _ _ => rfl) hk
  live := h.live
  entry := h.entry
  absent := h.absent
  minded hl := h.minded_update hl (fun _ ho => .inl ⟨_, ho⟩) (hm _ hl)

theorem stay (h : Orderly H σ D) (hme : σ me = s) (hf : ∀ l, p.inFlight l = s.inFlight l)
    (hk : p.Knows H D me)
    (hm : ∀ l, H.Registered l → s.Minds l →
      p.Minds l ∨ (∃ u, 0 < outstanding D u l) ∨ ∃ u, u ≠ me ∧ (σ u).Minds l) :
    Orderly H (update σ me p) D := by
  obtain rfl := hme
  have hacc (l : LockId) : (H.held l me : Int) = outstanding D me l + p.inFlight l := by
    rw [hf]
    exact h.account l me
  exact h.turn H.held h.exclusive (fun _ _ _ => rfl) hacc hk hm

theorem take (h : Orderly H σ D) (hme : σ me = s) {l : LockId} (hl : H.FreeFor l me)
    (hf : ∀ j, p.inFlight j = s.inFlight j + if l = j then 1 else 0)
    (hk : p.Knows (H.add l me) D me) (hm : ∀ j, s.Minds j → p.Minds j) :
    Orderly (H.add l me) (update σ me p) D := by
  obtain rfl := hme
  have hx {j : LockId} {t : ThreadId} (ht : 0 < (H.add l me).held j t) :
      0 < H.held j t ∨ j = l ∧ t = me := by
    by_cases hc : j = l ∧ t = me
    · exact .inr hc
    · rw [H.held_add_of_ne hc] at ht
      exact .inl ht
  have hown {t : ThreadId} (ht : 0 < H.held l t) : t = me := by
    by_contra hne
    have hz := hl t hne
    omega
  have hexcl {j : LockId} {t u : ThreadId} (ht : 0 < (H.add l me).held j t)
      (hu : 0 < (H.add l me).held j u) : t = u := by
    rcases hx ht with hto | ⟨hj, htm⟩ <;> rcases hx hu with huo | ⟨hj', hum⟩
    · exact h.exclusive hto huo
    · subst hj'
      exact (hown hto).trans hum.symm
    · subst hj
      exact htm.trans (hown huo).symm
    · exact htm.trans hum.symm
  have hother (j : LockId) (t : ThreadId) (hne : t ≠ me) : (H.add l me).held j t = H.held j t :=
    H.held_add_of_ne fun hc => hne hc.2
  have hacc (j : LockId) :
      ((H.add l me).held j me : Int) = outstanding D me j + p.inFlight j := by
    have ha := h.account j me
    rw [hf]
    by_cases hj : j = l
    · subst hj
      rw [H.held_add_self, if_pos rfl]
      omega
    · rw [H.held_add_of_ne fun hc => hj hc.1, if_neg (Ne.symm hj)]
      omega
  exact h.turn _ hexcl hother hacc hk fun j _ hs => .inl (hm j hs)

theorem exclusive_sub (h : Orderly H σ D) {l j : LockId} {t u : ThreadId}
    (ht : 0 < (H.sub l me).held j t) (hu : 0 < (H.sub l me).held j u) : t = u := by
  have hle := H.held_sub_le l j me
  exact h.exclusive (Nat.lt_of_lt_of_le ht (hle t)) (Nat.lt_of_lt_of_le hu (hle u))

theorem giveBack (h : Orderly H σ D) (hme : σ me = s) {l : LockId} (hl : 0 < H.held l me)
    (hf : ∀ j, s.inFlight j = p.inFlight j + if l = j then 1 else 0)
    (hk : p.Knows (H.sub l me) D me) (hm : ∀ j, s.Minds j → p.Minds j) :
    Orderly (H.sub l me) (update σ me p) D := by
  obtain rfl := hme
  have hother (j : LockId) (t : ThreadId) (hne : t ≠ me) : (H.sub l me).held j t = H.held j t :=
    H.held_sub_of_ne fun hc => hne hc.2
  have hacc (j : LockId) :
      ((H.sub l me).held j me : Int) = outstanding D me j + p.inFlight j := by
    have ha := h.account j me
    rw [hf] at ha
    by_cases hj : j = l
    · subst hj
      rw [H.held_sub_self]
      rw [if_pos rfl] at ha
      omega
    · rw [H.held_sub_of_ne fun hc => hj hc.1]
      rw [if_neg (Ne.symm hj)] at ha
      omega
  exact h.turn _ h.exclusive_sub hother hacc hk fun j _ hs => .inl (hm j hs)

/-! ## Deals -/

theorem concerns_iff (h : Orderly H σ D) {d : Deal} (hd : H.Homed d.handle.table d.handle.lock)
    (hi : d.identifier = H.identifier d.handle.lock) (hc : H.closed d.handle.lock = false)
    {table : TableId} {i : String} {l : LockId} (he : (i, l) ∈ H.entries table) (t : ThreadId) :
    d.concerns t table i = true ↔ d.thread = t ∧ d.handle.lock = l := by
  have hk := hd.kept hc
  rw [← hi] at hk
  simp only [Deal.concerns, Bool.and_eq_true, decide_eq_true_eq]
  constructor
  · rintro ⟨⟨ht, rfl⟩, rfl⟩
    exact ⟨ht, h.tidy.eq_of_mem hk he⟩
  · rintro ⟨ht, rfl⟩
    exact ⟨⟨ht, h.tidy.sole hk he⟩, hi.trans (h.tidy.named he)⟩

/-- `me` makes a deal on an open lock, goes on to `p`, and at most its holds change. -/
theorem deal (h : Orderly H σ D) {d : Deal} (held : LockId → ThreadId → Nat) (hd : d.thread = me)
    (hl : H.Homed d.handle.table d.handle.lock)
    (hi : d.identifier = H.identifier d.handle.lock) (hc : H.closed d.handle.lock = false)
    (hn : 0 ≤ outstanding D me d.handle.lock + d.worth)
    (hx : ∀ {l t u}, 0 < held l t → 0 < held l u → t = u)
    (hh : ∀ l t, t ≠ me → held l t = H.held l t)
    (hme : ∀ l, (held l me : Int) = outstanding (d :: D) me l + p.inFlight l)
    (hk : p.Knows { H with held } (d :: D) me)
    (ho : ∀ t l, 0 < outstanding D t l → (∃ u, 0 < outstanding (d :: D) u l) ∨ p.Minds l)
    (hm : ∀ l, H.Registered l → (σ me).Minds l →
      p.Minds l ∨ ∃ u, 0 < outstanding (d :: D) u l) :
    Orderly { H with held } (update σ me p) (d :: D) := by
  have hother (t : ThreadId) (ht : t ≠ me) (l : LockId) :
      outstanding (d :: D) t l = outstanding D t l := by
    apply outstanding_cons_of_ne
    rintro ⟨hdt, -⟩
    exact ht (hdt.symm.trans hd)
  exact
    { tidy := h.tidy.reheld held
      exclusive := hx
      account := h.account_update hh hother hme
      nonneg := by
        intro t l
        have h0 := h.nonneg t l
        by_cases hc : d.thread = t ∧ d.handle.lock = l
        · obtain ⟨rfl, rfl⟩ := hc
          rw [outstanding_cons_self]
          rw [← hd] at hn
          exact hn
        · rw [outstanding_cons_of_ne D hc]
          exact h0
      issued := by
        intro d' hd'
        apply (H.evolves_reheld held).homed
        rcases List.mem_cons.mp hd' with rfl | hd'
        · exact hl
        · exact h.issued d' hd'
      knows := h.knows_update (H.evolves_reheld held) hother hk
      live := by
        intro t l hpos
        by_cases hcon : d.thread = t ∧ d.handle.lock = l
        · rw [← hcon.2]
          exact hc
        · rw [outstanding_cons_of_ne D hcon] at hpos
          exact h.live hpos
      entry := by
        intro table i l he t
        rw [net_cons, outstanding_cons, h.entry he t]
        simp only [h.concerns_iff hl hi hc he t]
      absent := by
        intro table i he t
        have hk := hl.kept hc
        rw [← hi] at hk
        have hcon : ¬ d.concerns t table i = true := by
          simp only [Deal.concerns, Bool.and_eq_true, decide_eq_true_eq]
          rintro ⟨⟨-, rfl⟩, rfl⟩
          exact not_mem_of_lookup he _ hk
        rw [net_cons, if_neg hcon, h.absent he t, Int.add_zero]
      minded := fun hr => h.minded_update hr (ho · _) fun hs => (hm _ hr hs).imp_right .inl }

theorem grant (h : Orderly H σ D) {a : Attempt} (hme : σ me = .taken a) {table : TableId}
    (ht : a.table = some table) (hc : H.closed a.lock = false) :
    Orderly H (update σ me .none)
      (⟨me, ⟨table, a.lock⟩, H.identifier a.lock, true⟩ :: D) := by
  have hk := h.knows me
  have hacc (l : LockId) := h.account l me
  have hpos (t : ThreadId) (l : LockId) := h.nonneg t l
  rw [hme] at hk hacc
  obtain ⟨table', ht', hl⟩ := hk
  obtain rfl : table' = table := Option.some.inj (ht'.symm.trans ht)
  have hn : 0 ≤ outstanding D me a.lock + 1 := Int.add_nonneg (hpos ..) Int.one_nonneg
  have hmine (l : LockId) : (H.held l me : Int) =
      outstanding (⟨me, ⟨table', a.lock⟩, H.identifier a.lock, true⟩ :: D) me l +
        Stake.none.inFlight l := by
    rw [hacc, outstanding_cons]
    simp only [Stake.inFlight, Deal.worth, true_and, if_true]
    split <;> omega
  have hmore {t : ThreadId} {l : LockId} (ho : 0 < outstanding D t l) :
      0 < outstanding (⟨me, ⟨table', a.lock⟩, H.identifier a.lock, true⟩ :: D) t l := by
    rw [outstanding_cons]
    simp only [Deal.worth, if_true]
    split <;> omega
  have hgot :
      0 < outstanding (⟨me, ⟨table', a.lock⟩, H.identifier a.lock, true⟩ :: D) me a.lock := by
    have h0 := hpos me a.lock
    rw [outstanding_cons, if_pos ⟨rfl, rfl⟩]
    show 0 < _ + (1 : Int)
    omega
  refine h.deal H.held rfl hl rfl hc hn h.exclusive (fun _ _ _ => rfl) hmine trivial
    (fun t l ho => .inl ⟨t, hmore ho⟩) ?_
  intro l _ hs
  rw [hme] at hs
  obtain rfl : a.lock = l := hs
  exact .inr ⟨me, hgot⟩

theorem unlock (h : Orderly H σ D) {g : Handle} (hme : σ me = .release g .unlock)
    (hh : 0 < H.held g.lock me) {s : ReleaseStage} (hs : s = .notify ∨ s = .probe) :
    Orderly (H.sub g.lock me) (update σ me (.release g s))
      (⟨me, g, H.identifier g.lock, false⟩ :: D) := by
  have hk := h.knows me
  have hacc (l : LockId) := h.account l me
  rw [hme] at hk hacc
  simp only [Stake.inFlight_release (rfl : ReleaseStage.unlock.probing = false)] at hacc
  have hp (l : LockId) : (Stake.release g s).inFlight l = 0 := by
    apply Stake.inFlight_release
    rcases hs with rfl | rfl <;> rfl
  have hminds : (Stake.release g s).Minds g.lock := by
    rcases hs with rfl | rfl <;> exact ⟨rfl, rfl⟩
  have hhome : H.Homed g.table g.lock := hk.1
  have hown : 0 < outstanding D me g.lock := by
    have ha := hacc g.lock
    omega
  have hn : 0 ≤ outstanding D me g.lock + -1 := by omega
  have hother (l : LockId) (t : ThreadId) (hne : t ≠ me) :
      (H.sub g.lock me).held l t = H.held l t := H.held_sub_of_ne fun hc => hne hc.2
  have hmine (l : LockId) : ((H.sub g.lock me).held l me : Int) =
      outstanding (⟨me, g, H.identifier g.lock, false⟩ :: D) me l +
        (Stake.release g s).inFlight l := by
    have ha := hacc l
    rw [hp, outstanding_cons]
    by_cases hl : l = g.lock
    · subst hl
      rw [H.held_sub_self, if_pos ⟨rfl, rfl⟩]
      show ((H.held g.lock me - 1 : Nat) : Int) = _ + (-1 : Int) + _
      omega
    · rw [H.held_sub_of_ne fun hc => hl hc.1, if_neg fun hc => hl hc.2.symm]
      omega
  have hknows : (Stake.release g s).Knows { H with held := (H.sub g.lock me).held }
      (⟨me, g, H.identifier g.lock, false⟩ :: D) me := by
    have hhome' := (H.evolves_reheld (H.sub g.lock me).held).homed hhome
    rcases hs with rfl | rfl <;> exact ⟨hhome', trivial⟩
  refine h.deal (H.sub g.lock me).held rfl hhome rfl (h.live hown) hn h.exclusive_sub hother hmine
    hknows ?_ ?_
  · intro t l ho
    by_cases hl : l = g.lock
    · exact .inr (hl ▸ hminds)
    · refine .inl ⟨t, ?_⟩
      rw [outstanding_cons_of_ne D fun hc => hl hc.2.symm]
      exact ho
  · intro l _ hs
    rw [hme] at hs
    exact absurd hs.1 Bool.false_ne_true

/-! ## Closing, removal and creation -/

theorem close (h : Orderly H σ D) (hme : σ me = s) {l : LockId}
    (hl : ∀ t, outstanding D t l = 0) (hf : ∀ j, p.inFlight j = s.inFlight j)
    (hk : p.Knows (H.close l) D me) (hm : ∀ j, s.Minds j → p.Minds j) :
    Orderly (H.close l) (update σ me p) D where
  tidy := h.tidy.close l
  exclusive := h.exclusive
  account j t := by
    rw [inFlight_update (hme ▸ hf)]
    exact h.account j t
  nonneg := h.nonneg
  issued d hd := (H.evolves_close l).homed (h.issued d hd)
  knows := h.knows_update (H.evolves_close l) (fun _ _ _ => rfl) hk
  live {t j} hpos := by
    have hj : j ≠ l := by
      rintro rfl
      rw [hl t] at hpos
      exact Int.lt_irrefl 0 hpos
    simp only [Holdings.close, hj, if_false]
    exact h.live hpos
  entry := h.entry
  absent := h.absent
  minded hr := h.minded_update hr (fun _ ho => .inl ⟨_, ho⟩) fun hs => .inl (hm _ (hme ▸ hs))

theorem remove (h : Orderly H σ D) (hme : σ me = s) {table : TableId} {l : LockId}
    (hl : H.Homed table l) (hc : H.closed l = true) (hf : ∀ j, p.inFlight j = s.inFlight j)
    (hk : p.Knows (H.remove table l) D me) (hm : ∀ j, j ≠ l → s.Minds j → p.Minds j) :
    Orderly (H.remove table l) (update σ me p) D where
  tidy := h.tidy.remove table l
  exclusive ht hu := by
    rw [Holdings.held_remove] at ht hu
    exact h.exclusive ht hu
  account j t := by
    rw [Holdings.held_remove, inFlight_update (hme ▸ hf)]
    exact h.account j t
  nonneg := h.nonneg
  issued d hd := (h.tidy.evolves_remove hc).homed (h.issued d hd)
  knows := h.knows_update (h.tidy.evolves_remove hc) (fun _ _ _ => rfl) hk
  live hpos := by rw [Holdings.closed_remove]; exact h.live hpos
  entry he := h.entry (h.tidy.mem_remove.mp he).1
  absent {j i} he t := by
    rcases hi : (H.entries j).lookup i with _ | k
    · exact h.absent hi t
    · have hmem := mem_of_lookup hi
      -- What is gone is `l`, and it is closed.
      have hkl : k = l := by
        by_contra hne
        exact not_mem_of_lookup he k (h.tidy.mem_remove.mpr ⟨hmem, fun hg => hne hg.2⟩)
      rw [h.entry hmem t, hkl, h.outstanding_of_closed hc t]
  minded {j} hr := by
    obtain ⟨t, i, hm'⟩ := hr
    have hj : j ≠ l := by
      rintro rfl
      exact h.tidy.not_registered_remove hl ⟨t, i, hm'⟩
    exact h.minded_update ⟨t, i, (h.tidy.mem_remove.mp hm').1⟩ (fun _ ho => .inl ⟨_, ho⟩)
      fun hs => .inl (hm j hj (hme ▸ hs))

theorem create (h : Orderly H σ D) {table : TableId} {i : String}
    (hi : (H.entries table).lookup i = none) (hme : σ me = .none) {a : Attempt}
    (ht : a.table = some table) (hl : a.lock = H.fresh) :
    Orderly (H.create table i) (update σ me (.seek a)) D := by
  have hev := H.evolves_create table i
  have hmem : (i, H.fresh) ∈ (H.create table i).entries table :=
    mem_create.mpr (.inr ⟨rfl, rfl, rfl⟩)
  have hold {t : ThreadId} {l : LockId} (ho : 0 < outstanding D t l) : l ≠ H.fresh := by
    rintro rfl
    rw [h.outstanding_fresh] at ho
    exact Int.lt_irrefl 0 ho
  have hheld {l : LockId} {t : ThreadId} (ht : 0 < (H.create table i).held l t) :
      0 < H.held l t := by
    simp only [Holdings.create, Holdings.addLock] at ht
    split at ht
    · exact absurd ht (Nat.lt_irrefl 0)
    · exact ht
  exact
    { tidy := h.tidy.create hi
      exclusive := fun ht hu => h.exclusive (hheld ht) (hheld hu)
      account := by
        intro l t
        rw [inFlight_update (hme ▸ fun _ => rfl)]
        simp only [Holdings.create, Holdings.addLock]
        split
        · next he =>
          have hz : (σ t).inFlight l = 0 := by
            by_contra hne
            exact Nat.ne_of_lt ((h.knows t).lt_of_inFlight hne) he
          rw [hz, he, h.outstanding_fresh]
          rfl
        · exact h.account l t
      nonneg := h.nonneg
      issued := fun d hd => hev.homed (h.issued d hd)
      knows := by
        have hhome := (h.tidy.create hi).homed hmem
        rw [← hl] at hhome
        exact h.knows_update hev (fun _ _ _ => rfl) ⟨table, ht, hhome⟩
      live := by
        intro t l ho
        rw [Holdings.closed_create (hold ho)]
        exact h.live ho
      entry := by
        intro j k l he t
        rcases mem_create.mp he with he | ⟨rfl, rfl, rfl⟩
        · exact h.entry he t
        · rw [h.absent hi t, h.outstanding_fresh]
      absent := by
        intro j k he t
        apply h.absent
        rcases hj : (H.entries j).lookup k with _ | l
        · rfl
        · exact absurd (mem_create.mpr (.inl (mem_of_lookup hj))) (not_mem_of_lookup he l)
      minded := by
        rintro l ⟨j, k, he⟩
        rcases mem_create.mp he with he | ⟨-, -, rfl⟩
        · refine h.minded_update ⟨j, k, he⟩ (fun _ ho => .inl ⟨_, ho⟩) ?_
          intro hs
          rw [hme] at hs
          exact hs.elim
        · refine .inr ⟨me, ?_⟩
          rw [Function.update_self]
          exact hl }

/-! ## Every shift -/

theorem grows (h : Orderly H σ D) {H' : Holdings} (hg : H.Grows H') : Orderly H' σ D := by
  obtain ⟨hle, he⟩ := hg
  have hev : H.Evolves H' := by
    rw [he]
    exact ⟨fun hh => ⟨Nat.lt_of_lt_of_le hh.known hle, hh.sole, hh.kept⟩, fun _ => id, fun _ => id⟩
  have hknows (t : ThreadId) : (σ t).Knows H' D t := (h.knows t).mono hev fun _ => rfl
  have hissued (d : Deal) (hd : d ∈ D) := hev.homed (h.issued d hd)
  have htidy := h.tidy
  rw [he] at hknows hissued ⊢
  exact
    { tidy := ⟨htidy.nodup, htidy.named, fun hm => Nat.lt_of_lt_of_le (htidy.known hm) hle,
        htidy.sole⟩
      exclusive := h.exclusive, account := h.account, nonneg := h.nonneg, issued := hissued
      knows := hknows, live := h.live, entry := h.entry, absent := h.absent, minded := h.minded }

theorem begin (h : Orderly H σ D) (hme : σ me = .none)
    (hp : p = .none ∨ ∃ g, H.Homed g.table g.lock ∧ p = .release g .unlock) :
    Orderly H (update σ me p) D := by
  rcases hp with rfl | ⟨g, hg, rfl⟩
  · exact h.stay hme (fun _ => rfl) trivial fun _ _ hs => hs.elim
  · exact h.stay hme (Stake.inFlight_release rfl g) ⟨hg, trivial⟩ fun _ _ hs => hs.elim

/-- A thread that was refused a lock may leave it to whoever has a hold on it. -/
theorem leave_to (h : Orderly H σ D) {l : LockId} {o : ThreadId} (ho : o ≠ me)
    (hh : 0 < H.held l o) (hl : H.Registered l) :
    (∃ u, 0 < outstanding D u l) ∨ ∃ u, u ≠ me ∧ (σ u).Minds l :=
  (h.minded_of_held hl hh).imp (⟨o, ·⟩) (⟨o, ho, ·⟩)

/-! ### Shifts of acquisitions -/

theorem knows_of_eq (h : Orderly H σ D) (hme : σ me = s) : s.Knows H D me := hme ▸ h.knows me

theorem knows_reheld (h : Orderly H σ D) (hme : σ me = s) (held : LockId → ThreadId → Nat) :
    s.Knows { H with held } D me :=
  (h.knows_of_eq hme).mono (H.evolves_reheld held) fun _ => rfl

theorem held_of_inFlight (h : Orderly H σ D) (hme : σ me = s) {l : LockId}
    (hf : s.inFlight l ≠ 0) : H.held l me ≠ 0 := by
  have ha := h.account l me
  have hp := h.nonneg me l
  rw [hme] at ha
  omega

theorem take_attempt (h : Orderly H σ D) {a : Attempt} (hme : σ me = s)
    (hs : s = .seek a ∨ s = .wait a) (hfree : H.FreeFor a.lock me) :
    Orderly (H.add a.lock me) (update σ me (.taken a)) D := by
  have hk : s.Knows (H.add a.lock me) D me := h.knows_reheld hme _
  rcases hs with rfl | rfl
  · exact h.take hme hfree (fun _ => (Nat.zero_add _).symm) hk fun _ hj => hj
  · exact h.take hme hfree (fun _ => (Nat.zero_add _).symm) hk fun _ hj => hj.elim

/-- Whoever has the lock looks after it instead. -/
theorem miss (h : Orderly H σ D) {a : Attempt} {o : ThreadId} (hme : σ me = .seek a) (ho : o ≠ me)
    (hh : 0 < H.held a.lock o) : Orderly H (update σ me (.wait a)) D := by
  have hk : (Stake.seek a).Knows H D me := h.knows_of_eq hme
  refine h.stay hme (fun _ => rfl) hk fun j hj hs => ?_
  obtain rfl : a.lock = j := hs
  exact .inr (h.leave_to ho hh hj)

theorem backOut (h : Orderly H σ D) {a : Attempt} (hme : σ me = .back a)
    (hh : 0 < H.held a.lock me) : Orderly (H.sub a.lock me) (update σ me (.discard a)) D := by
  have hk : (Stake.back a).Knows (H.sub a.lock me) D me := h.knows_reheld hme _
  exact h.giveBack hme hh (fun _ => (Nat.zero_add _).symm) hk fun _ hs => hs

theorem discard (h : Orderly H σ D) {a : Attempt} {t : TableId} (hme : σ me = .discard a)
    (ht : a.table = some t) : Orderly (H.remove t a.lock) (update σ me .none) D := by
  obtain ⟨⟨t', ht', hh⟩, hc⟩ := h.knows_of_eq hme
  obtain rfl : t' = t := Option.some.inj (ht'.symm.trans ht)
  exact h.remove hme hh hc (fun _ => rfl) trivial fun j hj hs => absurd hs.symm hj

/-! ### Shifts of releases -/

section
variable {g : Handle} {r : ReleaseStage}

/-- A release that is not at its probe may end, if the lock is looked after. -/
theorem leave (h : Orderly H σ D) (hme : σ me = .release g r) (hr : r.probing = false)
    (hm : ∀ l, H.Registered l → (Stake.release g r).Minds l →
      (∃ u, 0 < outstanding D u l) ∨ ∃ u, u ≠ me ∧ (σ u).Minds l) :
    Orderly H (update σ me .none) D :=
  h.stay hme (fun l => (Stake.inFlight_release hr g l).symm) trivial
    fun l hl hs => .inr (hm l hl hs)

theorem yield (h : Orderly H σ D) {o : ThreadId} (hme : σ me = .release g .probe) (ho : o ≠ me)
    (hh : 0 < H.held g.lock o) : Orderly H (update σ me .none) D := by
  refine h.leave hme rfl fun l hl hs => ?_
  obtain rfl : g.lock = l := hs.2
  exact h.leave_to ho hh hl

theorem probe (h : Orderly H σ D) (hme : σ me = .release g .probe) (hfree : H.FreeFor g.lock me) :
    Orderly (H.add g.lock me) (update σ me (.release g .count)) D := by
  have hk : (Stake.release g .probe).Knows (H.add g.lock me) D me := h.knows_reheld hme _
  refine h.take hme hfree (fun l => ?_) ⟨hk.1, trivial⟩ fun _ hs => hs
  rw [Stake.inFlight_release (rfl : ReleaseStage.probe.probing = false)]
  simp only [Stake.inFlight, ReleaseStage.probing, true_and, Nat.zero_add]

theorem held_eq_of_probing (h : Orderly H σ D) (hme : σ me = .release g r) (hr : r.probing) :
    (H.held g.lock me : Int) = outstanding D me g.lock + 1 := by
  have ha := h.account g.lock me
  rw [hme, Stake.inFlight_probing hr] at ha
  exact ha

/-- The probe is the only hold of the thread. -/
theorem count_alone (h : Orderly H σ D) (hme : σ me = .release g .count)
    (h1 : H.held g.lock me = 1) : Orderly H (update σ me (.release g .close)) D := by
  have ha := h.held_eq_of_probing hme rfl
  have hz : outstanding D me g.lock = 0 := by omega
  exact h.stay hme (fun _ => rfl) ⟨(h.knows_of_eq hme).1, hz⟩ fun _ _ hs => .inl hs

/-- The thread was granted another hold, by which it looks after the lock. -/
theorem count_inUse (h : Orderly H σ D) (hme : σ me = .release g .count)
    (h1 : H.held g.lock me ≠ 1) : Orderly H (update σ me (.release g .unprobe)) D := by
  have ha := h.held_eq_of_probing hme rfl
  have hn := h.nonneg me g.lock
  have hp : 0 < outstanding D me g.lock := by omega
  refine h.stay hme (fun _ => rfl) ⟨(h.knows_of_eq hme).1, .inl hp⟩ fun l _ hs => ?_
  obtain rfl : g.lock = l := hs.2
  exact .inr (.inl ⟨me, hp⟩)

theorem close_alone (h : Orderly H σ D) (hme : σ me = .release g .close) :
    Orderly (H.close g.lock) (update σ me (.release g .remove)) D := by
  have hk := h.knows_of_eq hme
  have hown : outstanding D me g.lock = 0 := hk.2
  have hz (t : ThreadId) : outstanding D t g.lock = 0 := by
    have ha := h.held_eq_of_probing hme rfl
    have ht := h.account g.lock t
    have hp := h.nonneg t g.lock
    by_contra hne
    -- The probe has a hold, so the thread with another one is this one.
    obtain rfl : t = me := h.exclusive (l := g.lock) (by omega) (by omega)
    exact hne hown
  refine h.close hme hz (fun _ => rfl) ⟨(H.evolves_close _).homed hk.1, ?_⟩ fun _ hs => hs
  simp only [Holdings.close, if_true]

theorem remove_home (h : Orderly H σ D) (hme : σ me = .release g .remove) :
    Orderly (H.remove g.table g.lock) (update σ me (.release g .unprobe)) D := by
  obtain ⟨hh, hc⟩ := h.knows_of_eq hme
  have hk : (Stake.release g .unprobe).Knows (H.remove g.table g.lock) D me :=
    ⟨(h.tidy.evolves_remove hc).homed hh, .inr (h.tidy.not_registered_remove hh)⟩
  exact h.remove hme hh hc (fun _ => rfl) hk fun l hl hs => absurd hs.2.symm hl

theorem unprobe (h : Orderly H σ D) (hme : σ me = .release g .unprobe) (hh : 0 < H.held g.lock me)
    (hp : p = .none ∨ p = .release g .notifyProbe) :
    Orderly (H.sub g.lock me) (update σ me p) D := by
  have hk : (Stake.release g .unprobe).Knows (H.sub g.lock me) D me := h.knows_reheld hme _
  refine h.giveBack hme hh (fun l => ?_) ?_ fun _ hs => absurd hs.1 Bool.false_ne_true
  · rcases hp with rfl | rfl <;>
      simp only [Stake.inFlight, ReleaseStage.probing, true_and, Bool.false_eq_true, false_and,
        if_false, Nat.zero_add]
  · rcases hp with rfl | rfl
    · trivial
    · exact ⟨hk.1, trivial⟩

end

/-- **Every shift keeps the locks orderly.** -/
theorem shift (h : Orderly H σ D) {ds : List Deal} {H' : Holdings}
    (hs : Shift me H s ds H' p) (hme : σ me = s) : Orderly H' (update σ me p) (ds ++ D) := by
  have hk := h.knows_of_eq hme
  cases hs with
  | rest => exact h.begin hme (.inl rfl)
  | find ht hl =>
    exact h.stay hme (fun _ => rfl) ⟨_, ht, h.tidy.homed (mem_of_lookup hl)⟩
      fun _ _ hs => hs.elim
  | create ht hl hi => exact h.create hi hme ht hl
  | take hp hfree => exact h.take_attempt hme hp hfree
  | miss ho hh => exact h.miss hme ho hh
  | stay => exact h.stay hme (fun _ => rfl) hk fun _ _ hs => hs.elim
  | giveUp => exact h.stay hme (fun _ => rfl) trivial fun _ _ hs => hs.elim
  | grant ht hc => exact h.grant hme ht hc
  | shut hc => exact h.stay hme (fun _ => rfl) ⟨hk, hc⟩ fun _ _ hs => .inl hs
  | backOut hh => exact h.backOut hme hh
  | backOutFails hz => exact absurd hz (h.held_of_inFlight hme (by simp [Stake.inFlight]))
  | backedOut => exact h.stay hme (fun _ => rfl) hk fun _ _ hs => .inl hs
  | discard ht => exact h.discard hme ht
  -- Users work on locks of tables only.
  | live hn =>
    obtain ⟨table, ht, -⟩ := hk
    exact absurd (hn.symm.trans ht) nofun
  | closed hn =>
    obtain ⟨⟨table, ht, -⟩, -⟩ := hk
    exact absurd (hn.symm.trans ht) nofun
  | refuse | disposed =>
    exact h.leave hme rfl fun _ _ hs => absurd hs.1 Bool.false_ne_true
  | unlock hh hs => exact h.unlock hme hh hs
  | notify => exact h.stay hme (fun _ => rfl) ⟨hk.1, trivial⟩ fun _ _ hs => .inl hs
  | probe hfree => exact h.probe hme hfree
  | yield ho hh => exact h.yield hme ho hh
  | alone h1 => exact h.count_alone hme h1
  | inUse h1 => exact h.count_inUse hme h1
  | close => exact h.close_alone hme
  | remove => exact h.remove_home hme
  | unprobe hh hp => exact h.unprobe hme hh hp
  | unprobeFails hz =>
    exact absurd hz (h.held_of_inFlight hme (by rw [Stake.inFlight_probing rfl]; exact nofun))
  | rawRest | rawEnd | rawTake | rawRelease | rawClose | rawMake => exact hk.elim

end Orderly

end KeyedLocks
