import KeyedLocks.Proofs.Ledger
import KeyedLocks.Proofs.Lifetime
import KeyedLocks.Proofs.Release

/-!
# Closed locks

A lock that was closed is out of use for good (`Session.Retired`): it stays closed, nobody is
granted a hold on it, a thread between two calls has none, and a release that works on it touches
nothing that anybody was granted. Threads may still take it for a moment, since they looked it up
before, or release it through a handle from an earlier hold. With `System.Answers` this says that
releases that are not due do no harm (`Session.releases_inert`).
-/

namespace KeyedLocks

/-! ## Closed is final -/

namespace Shift

variable {me : ThreadId} {H H' : Holdings} {p p' : Stake} {ds : List Deal} {l : LockId}

theorem closed_of_closed (h : Shift me H p ds H' p') (hl : l < H.fresh) (hc : H.closed l = true) :
    H'.closed l = true := by
  cases h with
  | create | rawMake => exact (if_neg (Nat.ne_of_lt hl)).trans hc
  | close | rawClose => exact (Holdings.evolves_close ..).closed hl hc
  | discard | remove =>
    rw [Holdings.closed_remove]
    exact hc
  | _ => exact hc

theorem closed_of_granted (h : Shift me H p ds H' p') {d : Deal} (hd : d ∈ ds) (hg : d.granted) :
    H.closed d.handle.lock = false := by
  cases h with
  | grant _ hc => rw [List.mem_singleton.mp hd]; exact hc
  | unlock => rw [List.mem_singleton.mp hd] at hg; cases hg
  | _ => cases hd

variable {g : Handle} {s : ReleaseStage}

theorem deals_of_release (h : Shift me H (.release g s) ds H' p')
    (hz : s = .unlock → H.held g.lock me = 0) : ds = [] := by
  cases h with
  | unlock hpos => exact absurd (hz rfl) (Nat.ne_of_gt hpos)
  | take hp => rcases hp with hp | hp <;> cases hp
  | _ => rfl

theorem mem_entries_of_release (h : Shift me H (.release g s) ds H' p') (ht : H.Tidy)
    (hl : l ≠ g.lock) {table : TableId} {i : String} :
    (i, l) ∈ H'.entries table ↔ (i, l) ∈ H.entries table := by
  cases h with
  | remove =>
    rw [ht.mem_remove]
    exact and_iff_left fun h => hl h.2
  | take hp => rcases hp with hp | hp <;> cases hp
  | _ => exact Iff.rfl

end Shift

section
variable {me : ThreadId} {now : Nat} {m : Memory} {p : Phase} {st : Step} {g : Handle}

theorem Phase.closed_of_obtained (hm : m.Wf) (h : p.next me now m = some st)
    (ho : .returned (.obtained g) ∈ st.notes) : (m.lock g.lock).closed = false := by
  obtain ⟨H, hsh, -⟩ := Phase.next_shifts hm h
  have hd : ⟨me, g, (m.lock g.lock).identifier, true⟩ ∈ p.deals me m st.phase st.notes := by
    unfold Phase.deals
    split
    · next g' who =>
      have hst : who.release me m g' .unlock = some st := h
      cases Releaser.release_course hst with
      | on _ _ _ hn => exact absurd ho (hn _)
      | refuse =>
        cases who with
        | handle => cases List.mem_singleton.mp ho
        | guard => cases List.mem_singleton.mp (Step.returned_of_emit ho)
      | finish hn => exact absurd rfl hn
    · exact List.mem_filterMap.mpr ⟨_, ho, rfl⟩
  exact hsh.closed_of_granted hd rfl

theorem Releaser.lock_of_ne {who : Releaser} {s : ReleaseStage} {l : LockId}
    (hst : who.release me m g s = some st) (hl : l ≠ g.lock) : st.memory.lock l = m.lock l := by
  have hmod (f : Lock → Lock) : (m.modifyLock g.lock f).lock l = m.lock l := by
    rw [Memory.lock_modifyLock, if_neg hl]
  have hacts : (Phase.releasing g who s).Acts me 0 m st := release_acts hst
  cases hacts with
  | refuse | refuseGuard | yield | alone | inUse | remove | replaced | unprobeFails => rfl
  | _ => exact hmod _

end

namespace System

variable {s s' : System} {l : LockId}

theorem closed_of_moved (hs : s.Reached) {m : Move} (hm : s.Moved m s')
    (hc : (s.memory.lock l).closed) : (s'.memory.lock l).closed := by
  have hl : l < s.memory.locks.fresh := by
    by_contra hn
    have hd : s.memory.lock l = default := Arena.get_of_fresh_le (Nat.le_of_not_lt hn)
    rw [hd] at hc
    cases hc
  obtain ⟨H, ⟨-, hg⟩, hH⟩ := holdings_of_moved hs hm
  show s'.memory.holdings.closed l = true
  rw [hg]
  rcases hH with rfl | ⟨u, p, ds, p', -, hsh⟩
  · exact hc
  · exact hsh.closed_of_closed hl hc

end System

namespace Session

variable {x y z : Session} {t : ThreadId} {l : LockId} {g : Handle}

/-- Lock `l` is out of use from now on, whatever users do. -/
structure Retired (x : Session) (l : LockId) : Prop where
  closed : ∀ {y}, Leads Allowed x y → (y.memory.lock l).closed
  ungranted : ∀ {y t s notes g}, Leads Allowed x y → y.system.act t = some (s, notes) →
    .returned (.obtained g) ∈ notes → g.lock ≠ l
  unheld : ∀ {y t}, Leads Allowed x y → y.phase t = .idle →
    (y.memory.lock l).mutex.isHeldBy t = false
  /-- What works on it, of a release through some handle, leaves alone the holds that threads were
  granted, and the locks of their identifiers. -/
  harmless : ∀ {y z t g who stage}, Leads Allowed x y → g.lock = l →
    y.phase t = .releasing g who stage → y.move (.act t) = some z →
    z.deals = y.deals ∧ ∀ u table identifier, y.Holds u table identifier →
      z.memory.entry? table identifier = y.memory.entry? table identifier

theorem closed_of_leads (hx : x.Reachable) (hc : (x.memory.lock l).closed)
    (hy : Leads Allowed x y) : y.Reachable ∧ (y.memory.lock l).closed := by
  induction hy with
  | refl => exact ⟨hx, hc⟩
  | move _ hm hz ih => exact ⟨ih.1.move hm hz, System.closed_of_moved ih.1.reached (moved hz) ih.2⟩

/-- The holds on a closed lock are all in flight. -/
theorem Reachable.held_of_closed (hx : x.Reachable) (hc : (x.memory.lock l).closed)
    (t : ThreadId) : x.system.holdsOf t l = (x.phase t).stake.inFlight l := by
  have ha := hx.orderly.2.account l t
  rw [hx.orderly.2.outstanding_of_closed hc, Int.zero_add] at ha
  exact Int.ofNat.inj ha

theorem Reachable.not_held_of_closed (hx : x.Reachable) (hc : (x.memory.lock l).closed)
    (hi : x.phase t = .idle) : (x.memory.lock l).mutex.isHeldBy t = false := by
  rw [Mutex.isHeldBy, beq_eq_false_iff_ne]
  intro ho
  have hpos : 0 < x.system.holdsOf t l := hx.reached.owner_iff.mp ho
  rw [hx.held_of_closed hc, hi] at hpos
  cases hpos

/-- A release that works on a closed lock touches nothing that anybody holds. -/
theorem Reachable.entry?_of_release (hx : x.Reachable) {who : Releaser} {stage : ReleaseStage}
    (hc : (x.memory.lock g.lock).closed) (hp : x.phase t = .releasing g who stage)
    (hy : x.move (.act t) = some y) : y.deals = x.deals ∧
      ∀ u table identifier, x.Holds u table identifier →
        y.memory.entry? table identifier = x.memory.entry? table identifier := by
  have hallowed : x.allows (.act t) := by simp only [allows, hp]
  have hyr : y.Reachable := hx.move hallowed hy
  obtain ⟨st, hst, he⟩ := of_move_act hy
  rw [hp] at hst
  have hrelease : who.release t x.memory g stage = some st := hst
  obtain ⟨H, hsh, -, -, hg⟩ := Phase.next_shifts hx.orderly.1 hst
  have hsh : Shift t x.memory.holdings (.release g stage) _ H st.phase.stake := hsh
  have hheld := hx.held_of_closed hc t
  rw [hp] at hheld
  constructor
  · have hnone : (Phase.releasing g who stage).deals t x.memory st.phase st.notes = [] := by
      refine hsh.deals_of_release ?_
      rintro rfl
      exact hheld
    rw [he]
    show (x.phase t).deals _ _ _ _ ++ x.deals = x.deals
    rw [hp, hnone, List.nil_append]
  · intro u table identifier hu
    obtain ⟨l, hl⟩ := hx.orderly.entry_of_holds hu
    have hopen : x.memory.holdings.closed l = false :=
      hx.orderly.2.live ((hx.orderly.holds_iff hl).mp hu)
    have hne : l ≠ g.lock := by
      rintro rfl
      exact absurd hc (Bool.eq_false_iff.mp hopen)
    have hmem : y.memory = st.memory := by rw [he]
    have hl' : (identifier, l) ∈ (y.memory.table table).entries := by
      rw [hmem]
      show (identifier, l) ∈ st.memory.holdings.entries table
      rw [hg]
      exact (hsh.mem_entries_of_release hx.orderly.2.tidy hne).mpr hl
    unfold Memory.entry?
    rw [hx.orderly.find?_eq_some_iff.mpr hl, hyr.orderly.find?_eq_some_iff.mpr hl', hmem,
      Option.map_some, Option.map_some, Releaser.lock_of_ne hrelease hne]

theorem Reachable.retired (hx : x.Reachable) (hc : (x.memory.lock l).closed) : x.Retired l where
  closed hy := (closed_of_leads hx hc hy).2
  ungranted {y t s notes g} hy hact ho := by
    obtain ⟨hr, hc⟩ := closed_of_leads hx hc hy
    obtain ⟨st, hst, rfl, -⟩ := System.act_eq_some_iff.mp hact
    have hopen := Phase.closed_of_obtained hr.orderly.1 hst ho
    rintro rfl
    exact absurd hc (Bool.eq_false_iff.mp hopen)
  unheld hy hi := by
    obtain ⟨hr, hc⟩ := closed_of_leads hx hc hy
    exact hr.not_held_of_closed hc hi
  harmless := by
    rintro y z t g who stage hy rfl hp hz
    obtain ⟨hr, hc⟩ := closed_of_leads hx hc hy
    exact hr.entry?_of_release hc hp hz

/-- **Releases that are not due do no harm.** A thread between two calls that releases a handle, its
own or another's, of now or of old, is told whether it owns the lock, and if it does not, nothing
changes. Once the lock is closed, nobody gets or has it again, and no release through a handle to it
touches a later hold. -/
theorem releases_inert (hx : x.Reachable) :
    (∀ {t g}, x.phase t = .idle → x.allows (.call t (.release g)) → x.system.Answers t g) ∧
    ∀ {l}, (x.memory.lock l).closed → x.Retired l := by
  refine ⟨fun {t g} hi ha => ?_, hx.retired⟩
  obtain ⟨hissued, hname⟩ := Bool.and_eq_true_iff.mp ha
  have halive := hx.referenced.isAlive_of_name (of_decide_eq_true hname)
  exact hx.reached.answers hi (hx.orderly.homed hissued).known (Memory.lt_fresh_of_isAlive halive)

/-- Thread 1 has had "a" and disposed of its lock, and thread 2 has "a" now. -/
def succession : List Move := List.flatten
  [[.call 0 (.act (.makeTable .unbounded false)), .act 0, .call 1 (.obtain 0 "a")],
    List.replicate 4 (.act 1), [.call 1 (.release ⟨0, 0⟩)], List.replicate 8 (.act 1),
    [.call 2 (.obtain 0 "a")], List.replicate 4 (.act 2)]

theorem releases_inert_succession : ∃ x, run Allowed {} succession = some x ∧
    x.Holds 2 0 "a" ∧ x.system.due 1 ⟨0, 0⟩ = .refused (.notHeld "a") ∧ x.system.Answers 1 ⟨0, 0⟩ ∧
    x.system.due 2 ⟨0, 1⟩ = .released ∧ x.system.Answers 2 ⟨0, 1⟩ ∧ x.Retired 0 := by
  have hx : ∃ x, run Allowed {} succession = some x ∧ x.Reachable ∧
      x.Holds 2 0 "a" ∧ x.system.due 1 ⟨0, 0⟩ = .refused (.notHeld "a") ∧
      x.system.due 2 ⟨0, 1⟩ = .released ∧ x.phase 1 = .idle ∧ x.phase 2 = .idle ∧
      x.allows (.call 1 (.release ⟨0, 0⟩)) ∧ x.allows (.call 2 (.release ⟨0, 1⟩)) ∧
      (x.memory.lock 0).closed := exists_of_run (by decide +kernel)
  obtain ⟨x, hr, hx, h₀, h₁, h₂, hi₁, hi₂, ha₁, ha₂, hc⟩ := hx
  have hinert := releases_inert hx
  exact ⟨x, hr, h₀, h₁, hinert.1 hi₁ ha₁, h₂, hinert.1 hi₂ ha₂, hinert.2 hc⟩

end Session

end KeyedLocks
