import KeyedLocks.Proofs.References
import KeyedLocks.Proofs.Sleep

/-!
# Releases

What a release answers is settled by its first critical section: it gives a hold back if the thread
owns the lock, and refuses otherwise. What comes after it disposes of the lock and cannot fail
(`Releaser.Course`). `System.Answers t g` says all that a thread may rely on that is about to
release `g`: it is told whether it owned the lock, whatever others do meanwhile; it is done after
eight actions, and never blocked for good; and if it is refused, nothing has changed.
-/

namespace KeyedLocks

/-! ## The course of a release -/

/-- The actions that are left, at most. -/
def ReleaseStage.left : ReleaseStage → Nat
  | .unlock => 8
  | .notify => 7
  | .probe => 6
  | .count => 5
  | .close => 4
  | .remove => 3
  | .unprobe => 2
  | .notifyProbe => 1

theorem ReleaseStage.left_le (s : ReleaseStage) : s.left ≤ ReleaseStage.unlock.left := by
  cases s <;> decide

theorem ReleaseStage.left_pos (s : ReleaseStage) : 0 < s.left := by
  cases s <;> decide

/-- What an action of a release of `g` leads to. -/
inductive Releaser.Course (me : ThreadId) (m : Memory) (g : Handle) (who : Releaser) :
    ReleaseStage → Step → Prop where
  | on {s s' : ReleaseStage} {st : Step} : st.phase = .releasing g who s' → s'.left < s.left →
      (s = .unlock → (m.lock g.lock).mutex.owner = some me) →
      (∀ o, .returned o ∉ st.notes) → Course me m g who s st
  | refuse : (m.lock g.lock).mutex.owner ≠ some me → Course me m g who .unlock
      (who.conclude g m (.error (.notHeld (m.lock g.lock).identifier)))
  | finish {s : ReleaseStage} {st : Step} : s ≠ .unlock → st.phase = .idle →
      (∀ o, .returned o ∈ st.notes → o = .released) → Course me m g who s st

namespace Releaser

variable {me : ThreadId} {m : Memory} {g : Handle} {who : Releaser} {s : ReleaseStage} {st : Step}

theorem course_on {m' : Memory} {s' : ReleaseStage} (hs : s ≠ .unlock) (hl : s'.left < s.left) :
    who.Course me m g s (.moveTo m' (.releasing g who s')) :=
  .on rfl hl (fun h => absurd h hs) fun _ => List.not_mem_nil

theorem course_finish {m' : Memory} (hs : s ≠ .unlock) :
    who.Course me m g s (.finish m' .released) :=
  .finish hs rfl fun _ ho => by cases List.mem_singleton.mp ho; rfl

theorem Course.emit (h : who.Course me m g s st) (hs : s ≠ .unlock) (e : Event) :
    who.Course me m g s (st.emit e) := by
  cases h with
  | on hp hl ho hr => exact .on hp hl ho fun o ho => hr o (Step.returned_of_emit ho)
  | refuse => exact absurd rfl hs
  | finish hs hp hr => exact .finish hs hp fun o ho => hr o (Step.returned_of_emit ho)

/-- **Every action of a release takes its course.** -/
theorem release_course (hst : who.release me m g s = some st) : who.Course me m g s st := by
  have hacts : (Phase.releasing g who s).Acts me 0 m st := release_acts hst
  cases hacts with
  | refuse _ hx | refuseGuard _ hx => exact .refuse (Mutex.release?_eq_none_iff.mp hx)
  | unlock _ hx | unlockLast _ hx =>
    have ho := (Mutex.release?_eq_some_iff.mp hx).1
    exact .on rfl (by decide) (fun _ => ho) fun _ => List.not_mem_nil
  | remove => exact Course.emit (s := .remove) (course_on (by decide) (by decide)) (by decide) _
  | unprobeFails => exact Course.emit (s := .unprobe) (course_finish (by decide)) (by decide) _
  | yield | unprobe | disposed => exact course_finish (by decide)
  | _ => exact course_on (by decide) (by decide)

theorem release_isSome (hf : (m.lock g.lock).latch = none) (s : ReleaseStage) :
    (who.release me m g s).isSome := by
  cases s with
  | unlock | probe | count | unprobe => simp only [release, Memory.critical, hf, if_true]; rfl
  | notify | close | remove | notifyProbe => rfl

end Releaser

/-- The two memories differ in the counts of references at most. -/
structure Memory.Alike (m m' : Memory) : Prop where
  locks : m'.locks = m.locks
  entries : ∀ table, (m'.table table).entries = (m.table table).entries
  policy : ∀ table, (m'.table table).policy = (m.table table).policy
  registry : m'.registry = m.registry
  interrupted : m'.interrupted = m.interrupted

theorem Memory.alike_retain (m : Memory) (table : TableId) : m.Alike (m.retain table) where
  locks := rfl
  entries := m.entries_retain table
  policy j := by rw [m.table_retain]
  registry := rfl
  interrupted := rfl

theorem Memory.alike_forgo (m : Memory) (table : TableId) : m.Alike (m.forgo table) where
  locks := rfl
  entries := m.entries_forgo table
  policy j := by rw [m.table_forgo]
  registry := rfl
  interrupted := rfl

/-! ## Identifiers -/

theorem Shift.identifier_of_lt {me : ThreadId} {H H' : Holdings} {p p' : Stake} {ds : List Deal}
    {l : LockId} (h : Shift me H p ds H' p') (hl : l < H.fresh) :
    H'.identifier l = H.identifier l ∧ l < H'.fresh := by
  cases h with
  | create | rawMake => exact ⟨if_neg (Nat.ne_of_lt hl), Nat.lt_succ_of_lt hl⟩
  | discard | remove =>
    rw [Holdings.identifier_remove, Holdings.fresh_remove]
    exact ⟨rfl, hl⟩
  | _ => exact ⟨rfl, hl⟩

namespace System

variable {s s' s₀ s₁ s₂ : System} {t u : ThreadId} {l : LockId} {g : Handle} {who : Releaser}
  {o : Outcome}

theorem identifier_of_moved (hs : s.Reached) {m : Move} (hm : s.Moved m s')
    (hl : l < s.memory.locks.fresh) : (s'.memory.lock l).identifier = (s.memory.lock l).identifier ∧
      l < s'.memory.locks.fresh := by
  obtain ⟨H, ⟨hn, hg⟩, hH⟩ := holdings_of_moved hs hm
  suffices h : H.identifier l = s.memory.holdings.identifier l ∧ l < H.fresh by
    refine ⟨?_, Nat.lt_of_lt_of_le h.2 hn⟩
    show s'.memory.holdings.identifier l = _
    rw [hg]
    exact h.1
  rcases hH with rfl | ⟨u, p, ds, p', -, hsh⟩
  · exact ⟨rfl, hl⟩
  · exact hsh.identifier_of_lt hl

/-! ## Latches are let go of -/

theorem exists_act_of_doze (h : (s.phase u).stage? l = some .doze) :
    ∃ s' ns, s.move (.act u) = some (s', ns) ∧ (s'.memory.lock l).latch = none := by
  obtain ⟨e, d, hp, rfl⟩ := Phase.waiting_of_stage? h
  obtain ⟨st, hst, hl⟩ : ∃ st, e.wait u s.now s.memory d .doze = some st ∧
      (st.memory.lock e.lock).latch = none := by
    simp only [Errand.wait]
    split
    · refine ⟨_, rfl, ?_⟩
      rw [Errand.lock_conclude, Errand.quit, Memory.lock_modifyLock, if_pos rfl]
    · refine ⟨_, rfl, ?_⟩
      simp only [Step.moveTo, Memory.setLatch]
      rw [Memory.lock_modifyLock, if_pos rfl]
  have hst : (s.phase u).next u s.now s.memory = some st := by rw [hp]; exact hst
  exact ⟨_, _, move_of_act (act_eq_some_iff.mpr ⟨st, hst, rfl, rfl⟩), hl⟩

theorem exists_act_of_checkFlag (h : (s.phase u).stage? l = some .checkFlag) :
    ∃ s' ns, s.move (.act u) = some (s', ns) ∧
      ((s'.memory.lock l).latch = none ∨ (s'.phase u).stage? l = some .doze) := by
  obtain ⟨e, d, hp, rfl⟩ := Phase.waiting_of_stage? h
  obtain ⟨st, hst, hl⟩ : ∃ st, e.wait u s.now s.memory d .checkFlag = some st ∧
      ((st.memory.lock e.lock).latch = none ∨ st.phase.stage? e.lock = some .doze) := by
    simp only [Errand.wait]
    split
    · refine ⟨_, rfl, .inl ?_⟩
      rw [Errand.lock_conclude, Errand.quit, Memory.lock_modifyLock, if_pos rfl]
    · exact ⟨_, rfl, .inr (Errand.stage?_waiting (by decide))⟩
  have hst : (s.phase u).next u s.now s.memory = some st := by rw [hp]; exact hst
  refine ⟨s.after u st, _, move_of_act (act_eq_some_iff.mpr ⟨st, hst, rfl, rfl⟩), ?_⟩
  rw [phase_after]
  exact hl

/-- Whoever has the latch of a lock lets go of it in two actions, while `t` stays where it is. -/
theorem Reached.exists_unlatched (hs : s.Reached) (l : LockId) (hi : s.phase t ≠ .idle)
    (ht : (s.phase t).stage? l = none) : ∃ ms s', ms.length ≤ 2 ∧ runBusy t s ms = some s' ∧
      s'.phase t = s.phase t ∧ (s'.memory.lock l).latch = none := by
  rcases hu : (s.memory.lock l).latch with _ | u
  · exact ⟨[], s, Nat.zero_le 2, rfl, rfl, hu⟩
  have hut : Move.act u ≠ .act t := by
    rintro ⟨⟩
    have hawake := (hs.poised l).manned t hu
    rw [ht] at hawake
    rcases hawake with h | h <;> cases h
  rcases (hs.poised l).manned u hu with h | h
  · obtain ⟨s₁, ns, hm, hl⟩ := exists_act_of_checkFlag h
    have hp : s₁.phase t = s.phase t := phase_of_moved (moved hm) hi hut
    rcases hl with hl | hl
    · exact ⟨[.act u], s₁, Nat.le_succ 1, runBusy_cons hm (hp ▸ hi), hp, hl⟩
    · obtain ⟨s₂, ns', hm', hl'⟩ := exists_act_of_doze hl
      have hp' : s₂.phase t = s.phase t := (phase_of_moved (moved hm') (hp ▸ hi) hut).trans hp
      refine ⟨[.act u, .act u], s₂, Nat.le_refl 2, ?_, hp', hl'⟩
      rw [runBusy_cons hm (hp ▸ hi), runBusy_cons hm' (hp' ▸ hi)]
      rfl
  · obtain ⟨s₁, ns, hm, hl⟩ := exists_act_of_doze h
    have hp : s₁.phase t = s.phase t := phase_of_moved (moved hm) hi hut
    exact ⟨[.act u], s₁, Nat.le_succ 1, runBusy_cons hm (hp ▸ hi), hp, hl⟩

/-! ## From the call to the answer -/

/-- How matters stand at a stage of the release of `g` that `t` began in `s₀`. -/
structure Releasing (s₀ : System) (t : ThreadId) (g : Handle) (s : System) (stage : ReleaseStage) :
    Prop where
  phase : s.phase t = .releasing g .handle stage
  /-- So far the thread has what it began with. -/
  held : stage = .unlock → ∀ l, s.holdsOf t l = s₀.holdsOf t l
  /-- The thread gave back a hold it began with. -/
  owned : stage ≠ .unlock → (s₀.memory.lock g.lock).mutex.owner = some t
  identifier : (s.memory.lock g.lock).identifier = (s₀.memory.lock g.lock).identifier
  known : g.lock < s.memory.locks.fresh

theorem Releasing.owner_iff (h : Releasing s₀ t g s .unlock) (hs₀ : s₀.Reached) (hs : s.Reached) :
    (s.memory.lock g.lock).mutex.owner = some t ↔ (s₀.memory.lock g.lock).mutex.owner = some t := by
  rw [hs₀.owner_iff, hs.owner_iff, h.held rfl]

theorem During.releasing (hs : s₀.Reached) (hg : g.lock < s₀.memory.locks.fresh)
    (h : During t (.release g) s₀ s) : ∃ stage, Releasing s₀ t g s stage := by
  induction h with
  | @call s hc =>
    have hm : s₀.Moved (.call t (.release g)) s := moved (move_of_call hc)
    obtain ⟨hi, hk⟩ := identifier_of_moved hs hm hg
    have hphase : s.phase t = .releasing g .handle .unlock := phase_of_call hc
    exact ⟨.unlock, hphase, fun _ _ => holdsOf_of_moved hs hm nofun, fun h => absurd rfl h, hi, hk⟩
  | @move s s' m ns hd hm hi ih =>
    obtain ⟨stage, ih⟩ := ih
    have hr : s.Reached := hd.reached hs
    have hmoved : s.Moved m s' := moved hm
    obtain ⟨hid, hk⟩ := identifier_of_moved hr hmoved ih.known
    have hid := hid.trans ih.identifier
    by_cases hact : m = .act t
    · subst hact
      cases hmoved with
      | @act _ st hst =>
        rw [ih.phase] at hst
        have hst : Releaser.handle.release t s.memory g stage = some st := hst
        rw [phase_after] at hi
        cases Releaser.release_course hst with
        | @on _ stage' _ hp hl ho =>
          refine ⟨stage', (phase_after ..).trans hp, fun h => ?_, fun _ => ?_, hid, hk⟩
          · subst h
            exact absurd hl (Nat.not_lt.mpr stage.left_le)
          · by_cases hs' : stage = .unlock
            · subst hs'
              exact (ih.owner_iff hs hr).mp (ho rfl)
            · exact ih.owned hs'
        | refuse => exact absurd (Releaser.phase_conclude ..) hi
        | finish _ hidle => exact absurd hidle hi
    · have hne : s.phase t ≠ .idle := by
        rw [ih.phase]
        exact nofun
      refine ⟨stage, (phase_of_moved hmoved hne hact).trans ih.phase, fun h l => ?_, ih.owned,
        hid, hk⟩
      rw [holdsOf_of_moved hr hmoved hact]
      exact ih.held h l

/-- The answer due to `t` if it releases `g`: whether it owned the lock. -/
def due (s : System) (t : ThreadId) (g : Handle) : Outcome :=
  if (s.memory.lock g.lock).mutex.owner = some t then .released
  else .refused (.notHeld (s.memory.lock g.lock).identifier)

theorem due_of_returns (hs : s₀.Reached) (hg : g.lock < s₀.memory.locks.fresh)
    (h : Returns t (.release g) s₀ o s) : o = s₀.due t g := by
  obtain ⟨s₁, notes, hd, hact, ho⟩ := h
  obtain ⟨stage, h⟩ := hd.releasing hs hg
  obtain ⟨st, hst, rfl, rfl⟩ := act_eq_some_iff.mp hact
  rw [h.phase] at hst
  have hst : Releaser.handle.release t s₁.memory g stage = some st := hst
  cases Releaser.release_course hst with
  | on _ _ _ hn => exact absurd ho (hn o)
  | refuse hown =>
    cases List.mem_singleton.mp ho
    have hown₀ : (s₀.memory.lock g.lock).mutex.owner ≠ some t :=
      fun he => hown ((h.owner_iff hs (hd.reached hs)).mpr he)
    rw [due, if_neg hown₀, h.identifier]
  | finish hstage _ hn => rw [hn o ho, due, if_pos (h.owned hstage)]

/-- Each action of a thread that releases is one less to come. -/
theorem count_act_le {ms : List Move} {stage : ReleaseStage} (h : runBusy t s ms = some s')
    (hp : s.phase t = .releasing g who stage) : ∃ stage', s'.phase t = .releasing g who stage' ∧
      ms.count (.act t) + stage'.left ≤ stage.left := by
  induction ms generalizing s stage with
  | nil => cases h; exact ⟨stage, hp, Nat.le_of_eq (Nat.zero_add _)⟩
  | cons m ms ih =>
    obtain ⟨⟨s₁, ns⟩, hm, h⟩ := Option.bind_eq_some_iff.mp h
    dsimp only at h
    split at h
    · cases h
    · next hi =>
      have hmoved : s.Moved m s₁ := moved hm
      by_cases hact : m = .act t
      · subst hact
        cases hmoved with
        | @act _ st hst =>
          rw [hp] at hst
          have hst : who.release t s.memory g stage = some st := hst
          rw [phase_after] at hi
          cases Releaser.release_course hst with
          | @on _ stage₁ _ hp₁ hl =>
            obtain ⟨stage', hp', hle⟩ := ih h ((phase_after ..).trans hp₁)
            refine ⟨stage', hp', ?_⟩
            rw [List.count_cons_self]
            omega
          | refuse => exact absurd (Releaser.phase_conclude ..) hi
          | finish _ hidle => exact absurd hidle hi
      · have hne : s.phase t ≠ .idle := by
          rw [hp]
          exact nofun
        obtain ⟨stage', hp', hle⟩ := ih h ((phase_of_moved hmoved hne hact).trans hp)
        refine ⟨stage', hp', ?_⟩
        rw [List.count_cons_of_ne hact]
        exact hle

/-- What `t` may rely on that is about to release `g`. -/
structure Answers (s : System) (t : ThreadId) (g : Handle) : Prop where
  made : ∃ s₁, s.call t (.release g) = some s₁
  /-- Whatever others do meanwhile, the thread is told what is due. -/
  due : ∀ {o s'}, Returns t (.release g) s o s' → o = s.due t g
  /-- By its eighth action it is told. -/
  brief : ∀ {s₁ s₂ ms}, s.call t (.release g) = some s₁ → runBusy t s₁ ms = some s₂ →
    ms.count (.act t) < 8
  /-- At any time it can act, at the latest when another thread has acted twice. -/
  unstuck : ∀ {s₁}, During t (.release g) s s₁ →
    ∃ ms s₂, ms.length ≤ 2 ∧ runBusy t s₁ ms = some s₂ ∧ (s₂.act t).isSome
  /-- What is refused changes nothing but counts of references. -/
  inert : (s.memory.lock g.lock).mutex.owner ≠ some t →
    (∀ {s₁}, s.call t (.release g) = some s₁ → s.memory.Alike s₁.memory) ∧
    ∀ {s₁ s₂ notes}, During t (.release g) s s₁ → s₁.act t = some (s₂, notes) →
      s₁.memory.Alike s₂.memory
  /-- If nobody else acts, these too are what they were. -/
  restored : (s.memory.lock g.lock).mutex.owner ≠ some t → ∀ {s₁ s₂ notes},
    s.call t (.release g) = some s₁ → s₁.act t = some (s₂, notes) →
      s₂.memory = s.memory ∧ (∀ u, s₂.phase u = s.phase u) ∧ s₂.now = s.now

theorem refused_of_during (hs : s₀.Reached) (hg : g.lock < s₀.memory.locks.fresh)
    (ho : (s₀.memory.lock g.lock).mutex.owner ≠ some t) (hd : During t (.release g) s₀ s₁)
    {notes : List Note} (hact : s₁.act t = some (s₂, notes)) :
    s₂.memory = s₁.memory.forgo g.table ∧ s₂.phases = s₁.phases.set t .idle ∧
      s₂.now = s₁.now := by
  obtain ⟨stage, h⟩ := hd.releasing hs hg
  obtain ⟨st, hst, -, rfl⟩ := act_eq_some_iff.mp hact
  rw [h.phase] at hst
  have hst : Releaser.handle.release t s₁.memory g stage = some st := hst
  have hunlock : stage = .unlock := by
    by_contra hn
    exact ho (h.owned hn)
  subst hunlock
  have ho₁ : (s₁.memory.lock g.lock).mutex.owner ≠ some t :=
    fun he => ho ((h.owner_iff hs (hd.reached hs)).mp he)
  cases Releaser.release_course hst with
  | on _ _ hown => exact absurd (hown rfl) ho₁
  | refuse => exact ⟨rfl, rfl, rfl⟩
  | finish hn => exact absurd rfl hn

/-- **A release answers as is due, and one that is refused leaves no trace.** -/
theorem Reached.answers (hs : s.Reached) (hi : s.phase t = .idle)
    (hl : g.lock < s.memory.locks.fresh) (ht : g.table < s.memory.tables.fresh) :
    s.Answers t g where
  made := ⟨_, call_eq_some_iff.mpr ⟨hi, rfl⟩⟩
  due := due_of_returns hs hl
  brief hc hr := by
    obtain ⟨stage, -, hle⟩ := count_act_le hr (phase_of_call hc)
    have hpos := stage.left_pos
    have h8 : ReleaseStage.unlock.left = 8 := rfl
    omega
  unstuck hd := by
    obtain ⟨stage, h⟩ := hd.releasing hs hl
    have hne : Phase.releasing g .handle stage ≠ .idle := nofun
    obtain ⟨ms, s₂, hlen, hr, hp, hf⟩ := (hd.reached hs).exists_unlatched g.lock (t := t)
      (h.phase ▸ hne) (by rw [h.phase]; rfl)
    refine ⟨ms, s₂, hlen, hr, ?_⟩
    rw [act, Option.isSome_map, hp, h.phase]
    exact Releaser.release_isSome hf stage
  inert ho := by
    constructor
    · intro s₁ hc
      obtain ⟨-, rfl⟩ := call_eq_some_iff.mp hc
      exact Memory.alike_retain ..
    · intro s₁ s₂ notes hd hact
      obtain ⟨hm, -⟩ := refused_of_during hs hl ho hd hact
      rw [hm]
      exact Memory.alike_forgo ..
  restored ho s₁ s₂ notes hc hact := by
    obtain ⟨hm, hp, hn⟩ := refused_of_during hs hl ho (.call hc) hact
    obtain ⟨-, rfl⟩ := call_eq_some_iff.mp hc
    refine ⟨?_, fun u => ?_, hn⟩
    · have hback : (s.memory.retainAll [g.table]).forgoAll [g.table] = s.memory := by
        refine Memory.forgoAll_retainAll fun table h => ?_
        rw [List.mem_singleton.mp h]
        exact ht
      exact hm.trans hback
    · show s₂.phases.get u = s.phases.get u
      rw [hp, Arena.set_set, Arena.get_set]
      split
      · next hu => rw [hu]; exact hi.symm
      · rfl

end System

end KeyedLocks
