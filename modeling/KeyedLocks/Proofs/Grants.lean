import KeyedLocks.Proofs.Acquisition
import KeyedLocks.Proofs.Counter

/-!
# Holds that were granted

A thread has the holds that its calls were granted and have not given back, and for a moment also
one that a call in progress has taken for itself: of a lock that may turn out to be closed, or as a
probe. `System.granted t l s ms` counts the former: what the calls of `t` got on lock `l` in the
moves `ms`, less what they gave back, be it through a handle, on the lock of a table or on a lock by
itself. The latter is what its stake has in hand (`Stake.inFlight`). Both together are the holds of
the thread (`System.holdsOf_eq_granted`), and the thread never has more in hand than it holds
(`System.Reached.inFlight_le`).
-/

namespace KeyedLocks

/-! ## What an action grants -/

/-- The caller is told that it has a hold now. -/
def Note.isGrant : Note → Bool
  | .returned (.obtained _) | .returned .live => true
  | n => n.isTaken

/-- The lock that the next action may grant a hold on. -/
def Phase.grants? : Phase → Option LockId
  | .readClosed a => some a.lock
  | .waiting (.plain l) _ _ | .acting (.tryLock l) => some l
  | _ => none

/-- The lock that the next action gives a granted hold back on. -/
def Phase.yields? : Phase → Option LockId
  | .releasing h _ .unlock => some h.lock
  | .unlocking l _ => some l
  | _ => none

/-- The action from `p` that led to `st` granted a hold on `l`. -/
def Phase.grants (p : Phase) (st : Step) (l : LockId) : Bool :=
  p.grants? = some l && st.notes.any Note.isGrant

/-- The action from `p` that led to `st` gave back a hold on `l` that had been granted. -/
def Phase.yields (p : Phase) (st : Step) (l : LockId) : Bool :=
  p.yields? = some l && MutexOp.unlock.succeeds st

section
variable {me : ThreadId} {now : Nat} {m : Memory} {p : Phase} {st : Step} {a : Attempt}
  {l : LockId}

theorem Phase.grants_eq_false (h : p.grants? ≠ some l) : p.grants st l = false := by
  rw [grants, decide_eq_false h, Bool.false_and]

theorem Phase.yields_eq_false (h : p.yields? ≠ some l) : p.yields st l = false := by
  rw [yields, decide_eq_false h, Bool.false_and]

theorem Phase.yields?_releasing {g : Handle} {who : Releaser} {s : ReleaseStage} :
    (Phase.releasing g who s).yields? = some l ↔ s = .unlock ∧ g.lock = l := by
  cases s <;> simp [yields?]

theorem Phase.operation?_of_yields? (h : p.yields? = some l) :
    p.operation? = some (.unlock, l) := by
  unfold yields? at h
  split at h <;> cases h <;> rfl

theorem Phase.yields?_of_acquiring (hp : p.stake.acquiring) : p.yields? = none := by
  unfold yields?
  split
  · cases hp
  · cases hp
  · rfl

theorem Phase.inFlight_of_yields? (h : p.yields? = some l) (k : LockId) :
    p.stake.inFlight k = 0 := by
  unfold yields? at h
  split at h
  · exact Stake.inFlight_release rfl _ k
  · rfl
  · cases h

theorem Phase.eq_readClosed_of_grants? (hp : p.stake.acquiring) (h : p.grants? = some l) :
    ∃ a, p = .readClosed a := by
  unfold grants? at h
  split at h
  · exact ⟨_, rfl⟩
  · cases hp
  · cases hp
  · cases h

theorem Phase.eq_releasing {g : Handle} {s : ReleaseStage} (h : p.stake = .release g s) :
    ∃ who, p = .releasing g who s := by
  cases p with
  | releasing _ who => cases h; exact ⟨who, rfl⟩
  | checking e | waiting e => cases e <;> cases h
  | acting b => cases b <;> cases h
  | _ => cases h

theorem Call.begin_inFlight (c : Call) (now : Nat) (m : Memory) (l : LockId) :
    (c.begin now m).2.stake.inFlight l = 0 := by
  cases c with
  | release g | dropGuard g => exact Stake.inFlight_release rfl g l
  | act b => cases b <;> rfl
  | _ => rfl

theorem Attempt.memory_readClosed (a : Attempt) (m : Memory) : (a.readClosed m).memory = m := by
  unfold readClosed
  split
  · rfl
  · split <;> rfl

/-- A thread that looks at the mark of the lock it has taken is granted the hold, or keeps it in
hand to give it back. -/
theorem Attempt.readClosed_grants (a : Attempt) (m : Memory) (l : LockId) :
    (a.readClosed m).phase.stake.inFlight l +
      ((Phase.readClosed a).grants (a.readClosed m) l).toNat = (Stake.taken a).inFlight l := by
  have hgrant {o : Outcome} (ho : Note.isGrant (.returned o)) :
      ((Phase.readClosed a).grants (.finish m o) l).toNat = (Stake.taken a).inFlight l := by
    show (decide (some a.lock = some l) && (Note.isGrant (.returned o) || false)).toNat = _
    rw [ho, Bool.true_or, Bool.and_true, Stake.inFlight]
    by_cases hl : a.lock = l
    · rw [if_pos hl, decide_eq_true (congrArg some hl)]
      rfl
    · rw [if_neg hl, decide_eq_false fun h => hl (Option.some.inj h)]
      rfl
  unfold readClosed
  split
  · show (Stake.back a).inFlight l + (decide (some a.lock = some l) && false).toNat = _
    rw [Bool.and_false]
    rfl
  · split
    · exact (Nat.zero_add _).trans (hgrant rfl)
    · exact (Nat.zero_add _).trans (hgrant rfl)

/-- A release gives back the hold that was granted, and the probe that it took itself. -/
theorem Shift.held_release {H H' : Holdings} {g : Handle} {s : ReleaseStage} {p' : Stake}
    {ds : List Deal} (h : Shift me H (.release g s) ds H' p')
    (hb : s = .unprobe → 0 < H.held g.lock me) (l : LockId) :
    H'.held l me + (Stake.release g s).inFlight l +
      (if s = .unlock ∧ 0 < H.held g.lock me ∧ g.lock = l then 1 else 0) =
      H.held l me + p'.inFlight l := by
  have hquiet (hs : s ≠ .unlock) :
      (if s = .unlock ∧ 0 < H.held g.lock me ∧ g.lock = l then 1 else 0) = 0 :=
    if_neg fun h => hs h.1
  have hnone (hs : s.probing = false) : (Stake.release g s).inFlight l = 0 :=
    Stake.inFlight_release hs g l
  have hprobe {s' : ReleaseStage} (hs : s'.probing) :
      (Stake.release g s').inFlight l = if g.lock = l then 1 else 0 := by
    simp only [Stake.inFlight, hs, true_and]
  cases h with
  | take hp => rcases hp with hp | hp <;> cases hp
  | refuse hz =>
    rw [hnone rfl, if_neg fun h => Nat.ne_of_gt h.2.1 hz]
    rfl
  | @unlock _ s' hpos hs =>
    have hnext : (Stake.release g s').inFlight l = 0 := by
      rcases hs with rfl | rfl <;> exact Stake.inFlight_release rfl g l
    rw [hnone rfl, hnext]
    by_cases hl : g.lock = l
    · subst hl
      rw [H.held_sub_self, if_pos ⟨rfl, hpos, rfl⟩]
      omega
    · rw [H.held_sub_of_ne fun h => hl h.1.symm, if_neg fun h => hl h.2.2]
  | notify => rw [hquiet (by decide)]; rfl
  | probe =>
    rw [hquiet (by decide), hnone rfl, hprobe rfl]
    by_cases hl : g.lock = l
    · subst hl
      rw [H.held_add_self, if_pos rfl]
    · rw [H.held_add_of_ne fun h => hl h.1.symm, if_neg hl]
  | yield => rw [hquiet (by decide), hnone rfl]; rfl
  | alone | inUse | close => rw [hquiet (by decide), hprobe rfl, hprobe rfl]; rfl
  | remove => rw [hquiet (by decide), hprobe rfl, hprobe rfl, Holdings.held_remove]; rfl
  | @unprobe _ p' hpos hp' =>
    have hnext : p'.inFlight l = 0 := by
      rcases hp' with rfl | rfl
      · rfl
      · exact Stake.inFlight_release rfl g l
    rw [hquiet (by decide), hprobe rfl, hnext]
    by_cases hl : g.lock = l
    · subst hl
      rw [H.held_sub_self, if_pos rfl]
      omega
    · rw [H.held_sub_of_ne fun h => hl h.1.symm, if_neg hl]
  | unprobeFails hz => exact absurd hz (Nat.ne_of_gt (hb rfl))
  | disposed => rw [hquiet (by decide), hnone rfl]; rfl

theorem Shift.inFlight_of_raw {H H' : Holdings} {p' : Stake} {ds : List Deal}
    (h : Shift me H .raw ds H' p') (l : LockId) : p'.inFlight l = 0 := by
  cases h with
  | rawRelease _ hp' => rcases hp' with rfl | rfl <;> rfl
  | take hp' => rcases hp' with hp' | hp' <;> cases hp'
  | _ => rfl

/-- The action from `p` that led to `st` made an operation in `q` on lock `l` a success. -/
def Phase.succeeds (p : Phase) (st : Step) (l : LockId) (q : MutexOp → Bool) : Bool :=
  match p.operation? with
  | some (op, k) => k = l && (q op && op.succeeds st)
  | none => false

theorem Phase.succeeds_of_raw (h : p.next me now m = some st) (hp : p.stake = .raw) (l : LockId) :
    p.succeeds st l MutexOp.acquires = p.grants st l ∧
      p.succeeds st l (· == .unlock) = p.yields st l := by
  cases p with
  | checking e c =>
    cases e with
    | attempt => cases hp
    | plain k => exact ⟨rfl, rfl⟩
  | waiting e d w =>
    cases e with
    | attempt => cases hp
    | plain k =>
      have hsame : MutexOp.tryLockFor.succeeds st = st.notes.any Note.isGrant := by
        rcases Errand.wait_plain h with ⟨⟨d', w', hq⟩, hn⟩ | ⟨r, hq, hn⟩ <;>
          rw [MutexOp.succeeds, hq, hn] <;> rfl
      simp [succeeds, operation?, grants, grants?, yields, yields?, Errand.lock, MutexOp.acquires,
        hsame]
  | unlocking | notifying =>
    simp [succeeds, operation?, grants, grants?, yields, yields?, MutexOp.acquires]
  | acting a =>
    cases a with
    | tryLock k =>
      have hsame : MutexOp.tryLock.succeeds st = st.notes.any Note.isGrant := by
        cases next_acts h <;> rfl
      simp [succeeds, operation?, grants, grants?, yields, yields?, MutexOp.acquires, hsame]
    | wake k => simp [succeeds, operation?, grants, grants?, yields, yields?, MutexOp.acquires]
    | close | makeLock => exact ⟨rfl, rfl⟩
    | clearInterrupt | makeTable | retain | forgo => cases hp
  | _ => cases hp

end

namespace System

variable {s s' : System} {t : ThreadId} {l : LockId} {st : Step} {ms : List Move}
  {ns : List (ThreadId × Note)}

theorem succeeds_eq_phase (hst : (s.phase t).next t s.now s.memory = some st)
    (q : MutexOp → Bool) : s.succeeds t l q = (s.phase t).succeeds st l q := by
  unfold succeeds Phase.succeeds
  rw [hst]
  rcases (s.phase t).operation? with _ | ⟨op, k⟩ <;> rfl

theorem yields_iff (hs : s.Reached) (hst : (s.phase t).next t s.now s.memory = some st) :
    (s.phase t).yields st l ↔ (s.phase t).yields? = some l ∧ 0 < s.holdsOf t l := by
  rw [Phase.yields, Bool.and_eq_true, decide_eq_true_iff]
  refine and_congr_right fun hy => ?_
  rw [← hs.owner_iff]
  rcases (Phase.next_books hst l).unlock (Phase.operation?_of_yields? hy) with
    ⟨hsucc, ho⟩ | ⟨hsucc, ho, -⟩
  · exact ⟨fun _ => ho, fun _ => hsucc⟩
  · rw [hsucc]
    exact ⟨nofun, fun h => absurd h ho⟩

/-- What the action of `t` that leads to `st` adds to its granted holds on `l`, it adds to those
holds that are not in hand. -/
def Accords (s : System) (t : ThreadId) (l : LockId) (st : Step) : Prop :=
  (s.after t st).holdsOf t l + (s.phase t).stake.inFlight l + ((s.phase t).yields st l).toNat =
    s.holdsOf t l + st.phase.stake.inFlight l + ((s.phase t).grants st l).toNat

theorem accords_of_raw (hs : s.Reached) (hst : (s.phase t).next t s.now s.memory = some st)
    (hp : (s.phase t).stake = .raw) (l : LockId) : s.Accords t l st := by
  have hheld := holdsOf_of_act hs hst l
  obtain ⟨hgrants, hyields⟩ := Phase.succeeds_of_raw hst hp l
  rw [succeeds_eq_phase hst, succeeds_eq_phase hst, hgrants, hyields] at hheld
  have hnext : st.phase.stake.inFlight l = 0 := by
    obtain ⟨H, hsh, -⟩ := Phase.next_shifts hs.wf hst
    rw [hp] at hsh
    exact hsh.inFlight_of_raw l
  unfold Accords
  rw [hp, hnext]
  exact hheld

theorem accords_of_acquiring (hs : s.Reached) (hst : (s.phase t).next t s.now s.memory = some st)
    (hp : (s.phase t).stake.acquiring)
    (hin : ∀ l, (s.phase t).stake.inFlight l ≤ s.holdsOf t l) (l : LockId) :
    s.Accords t l st := by
  have hyields : (s.phase t).yields st l = false :=
    Phase.yields_eq_false fun hy => by rw [Phase.yields?_of_acquiring hp] at hy; cases hy
  unfold Accords
  rw [hyields]
  by_cases hr : ∃ a, s.phase t = .readClosed a
  · obtain ⟨a, ha⟩ := hr
    have hgranted := a.readClosed_grants s.memory l
    rw [ha] at hst ⊢
    cases hst
    have hsame : (s.after t (a.readClosed s.memory)).holdsOf t l = s.holdsOf t l := by
      show ((a.readClosed s.memory).memory.lock l).mutex.holdsOf t = _
      rw [a.memory_readClosed]
      rfl
    rw [hsame]
    show _ + (Stake.taken a).inFlight l + 0 = _
    omega
  · have hgrants : (s.phase t).grants st l = false :=
      Phase.grants_eq_false fun hg => hr (Phase.eq_readClosed_of_grants? hp hg)
    have hback (a : Attempt) (ha : (s.phase t).stake = .back a) : 0 < s.holdsOf t a.lock := by
      refine Nat.lt_of_lt_of_le ?_ (hin a.lock)
      rw [ha, Stake.inFlight, if_pos rfl]
      exact Nat.one_pos
    have htaken (a : Attempt) (ha : (s.phase t).stake = .taken a) : st.phase.stake ≠ .none :=
      absurd ⟨a, Phase.eq_readClosed ha⟩ hr
    rw [hgrants]
    exact holdsOf_after hs hst hp hback htaken l

theorem accords_of_release (hs : s.Reached) (hst : (s.phase t).next t s.now s.memory = some st)
    {g : Handle} {who : Releaser} {stage : ReleaseStage} (hp : s.phase t = .releasing g who stage)
    (hin : ∀ l, (s.phase t).stake.inFlight l ≤ s.holdsOf t l) (l : LockId) :
    s.Accords t l st := by
  have hgrants : (s.phase t).grants st l = false :=
    Phase.grants_eq_false fun h => by rw [hp] at h; cases h
  have hyields : ((s.phase t).yields st l).toNat =
      if stage = .unlock ∧ 0 < s.holdsOf t g.lock ∧ g.lock = l then 1 else 0 := by
    show cond _ 1 0 = _
    rw [Bool.cond_eq_ite]
    refine if_congr ((yields_iff hs hst).trans ?_) rfl rfl
    rw [hp, Phase.yields?_releasing]
    constructor
    · rintro ⟨⟨hu, rfl⟩, hpos⟩
      exact ⟨hu, hpos, rfl⟩
    · rintro ⟨hu, hpos, rfl⟩
      exact ⟨⟨hu, rfl⟩, hpos⟩
  have hprobe (h : stage = .unprobe) : 0 < s.holdsOf t g.lock := by
    have hle := hin g.lock
    rw [hp, h] at hle
    exact Nat.lt_of_lt_of_le (Nat.lt_of_lt_of_eq Nat.one_pos (if_pos ⟨rfl, rfl⟩).symm) hle
  obtain ⟨H, hsh, -, hg⟩ := Phase.next_shifts hs.wf hst
  rw [hp] at hsh
  unfold Accords
  rw [hgrants, hyields, hp]
  show st.memory.holdings.held l t + _ + _ = _
  rw [hg.2]
  exact hsh.held_release hprobe l

/-- Every action of a thread that has what is in its hands accords with what it was granted. -/
theorem accords (hs : s.Reached) (hst : (s.phase t).next t s.now s.memory = some st)
    (hin : ∀ l, (s.phase t).stake.inFlight l ≤ s.holdsOf t l) (l : LockId) :
    s.Accords t l st := by
  rcases hp : (s.phase t).stake with _ | _ | a | a | a | a | a | ⟨g, stage⟩
  case raw => exact accords_of_raw hs hst hp l
  case release =>
    obtain ⟨who, hw⟩ := Phase.eq_releasing hp
    exact accords_of_release hs hst hw hin l
  all_goals exact accords_of_acquiring hs hst (by rw [hp]; rfl) hin l

theorem inFlight_of_moved {m : Move} (hm : s.Moved m s') (ha : m ≠ .act t) (l : LockId) :
    (s'.phase t).stake.inFlight l = (s.phase t).stake.inFlight l := by
  rcases hm.phase_eq_or ha with hp | ⟨c, -, hi, hp⟩
  · rw [hp]
  · rw [hp, hi]
    exact c.begin_inFlight s.now s.memory l

theorem Reached.inFlight_le (hs : s.Reached) (t : ThreadId) (l : LockId) :
    (s.phase t).stake.inFlight l ≤ s.holdsOf t l := by
  refine hs.induct (p := fun s => ∀ l, (s.phase t).stake.inFlight l ≤ s.holdsOf t l)
    (fun _ => Nat.le_refl 0) ?_ l
  intro s s' m hs hin hm l
  by_cases hact : m = .act t
  · subst hact
    cases hm with
    | @act _ st hst =>
      have haccords := accords hs hst hin l
      unfold Accords at haccords
      have hle := hin l
      rw [phase_after]
      rcases hy : (s.phase t).yields st l
      · rw [hy, Bool.toNat_false] at haccords
        omega
      · -- A hold is given back by a thread that has a hold and nothing in hand.
        obtain ⟨hl, hpos⟩ := (yields_iff hs hst).mp hy
        rw [hy, Bool.toNat_true, Phase.inFlight_of_yields? hl] at haccords
        omega
  · rw [inFlight_of_moved hm hact, holdsOf_of_moved hs hm hact]
    exact hin l

/-! ## Granted holds along a run -/

/-- What the next action of `t` adds to its granted holds on `l`. -/
def gain (t : ThreadId) (l : LockId) (s : System) : Int :=
  match (s.phase t).next t s.now s.memory with
  | some st => ((s.phase t).grants st l).toNat - ((s.phase t).yields st l).toNat
  | none => 0

/-- The holds on `l` that the moves granted to `t`, less those that it gave back. -/
def granted (t : ThreadId) (l : LockId) : System → List Move → Int
  | _, [] => 0
  | s, m :: ms =>
    match s.move m with
    | none => 0
    | some (s', _) => (if m = .act t then s.gain t l else 0) + granted t l s' ms

theorem granted_cons {m : Move} (hm : s.move m = some (s', ns)) :
    granted t l s (m :: ms) = (if m = .act t then s.gain t l else 0) + granted t l s' ms := by
  rw [granted, hm]

/-- A run adds to the holds of a thread what it was granted, and to what it has in hand the rest. -/
theorem holdsOf_of_granted (h : Steps s ms ns s') (hs : s.Reached) (t : ThreadId) (l : LockId) :
    (s'.holdsOf t l : Int) + (s.phase t).stake.inFlight l =
      s.holdsOf t l + (s'.phase t).stake.inFlight l + granted t l s ms := by
  induction h with
  | nil => exact (Int.add_zero _).symm
  | @cons s s₁ s₂ m ms ns₁ ns₂ hm _ ih =>
    have hrest := ih (hs.move hm)
    rw [granted_cons hm]
    have hmoved := moved hm
    by_cases hact : m = .act t
    · subst hact
      rw [if_pos rfl]
      cases hmoved with
      | act hst =>
        have haccords := accords hs hst (hs.inFlight_le t) l
        unfold Accords at haccords
        rw [phase_after] at hrest
        unfold gain
        rw [hst]
        dsimp only
        omega
    · rw [if_neg hact]
      rw [inFlight_of_moved hmoved hact, holdsOf_of_moved hs hmoved hact] at hrest
      omega

/-- **The holds of a thread are those it was granted and those it has in hand.** -/
theorem holdsOf_eq_granted (h : Steps {} ms ns s) (t : ThreadId) (l : LockId) :
    (s.holdsOf t l : Int) = granted t l {} ms + (s.phase t).stake.inFlight l := by
  have hsum := holdsOf_of_granted h .start t l
  have hzero : System.holdsOf {} t l = 0 := rfl
  have hidle : ((System.phase {} t).stake.inFlight l : Int) = 0 := rfl
  omega

example : granted 1 0 {} [.call 0 (.act (.makeLock "a")), .act 0, .call 1 (.act (.tryLock 0)),
    .act 1] = 1 := by decide +kernel

theorem granted_nonneg (h : Steps {} ms ns s) (t : ThreadId) (l : LockId) :
    0 ≤ granted t l {} ms := by
  have hle := Reached.inFlight_le ⟨ms, ns, h⟩ t l
  have heq := holdsOf_eq_granted h t l
  omega

end System

end KeyedLocks
