import Mathlib.Logic.Relation
import KeyedLocks.Proofs.Check
import KeyedLocks.Proofs.Mates
import KeyedLocks.Proofs.Sleep

/-!
# One thread at work

While a thread is at work and all others are idle or asleep, nobody is inside of a lock, and a
deadlock check comes to an end undisturbed. So the thread goes on by strides (`Bench.Strides`): one
action, or a whole check. A stride of a thread with a twin has a twin (`Mates.stride`), if both
checks come to the same verdict. `Bench.Sound` is what holds of the bench between two strides.
-/

namespace KeyedLocks

/-- The thread is idle, or asleep and perhaps woken. -/
def Phase.Calm : Phase → Prop
  | .idle | .waiting _ _ .asleep => True
  | _ => False

theorem Phase.Calm.not_awake {p : Phase} (h : p.Calm) (l : LockId) :
    ¬ (p.stage? l = some .checkFlag ∨ p.stage? l = some .doze) := by
  unfold Phase.Calm at h
  split at h
  · exact fun hs => by rcases hs with hs | hs <;> cases hs
  · simp only [Phase.stage?]
    split <;> exact fun hs => by rcases hs with hs | hs <;> cases hs
  · exact h.elim

namespace Scenario

namespace Bench

variable {b b₁ b' : Bench} {t : ThreadId} {n : Nat}

/-! ## Runs of one thread -/

/-- The thread is idle or asleep. -/
def Rests (b : Bench) (t : ThreadId) : Prop :=
  b.system.phase t = .idle ∨ (b.system.asleepOn t).isSome

instance (b : Bench) (t : ThreadId) : Decidable (b.Rests t) := inferInstanceAs (Decidable (_ ∨ _))

theorem act_eq_none_of_rests (h : b.Rests t) : b.act t = none := by
  rw [Option.eq_none_iff_forall_ne_some]
  intro b₁ hb
  obtain ⟨st, hst, -⟩ := act_eq_some_iff.mp hb
  rcases h with hi | hs
  · rw [hi] at hst
    cases hst
  · obtain ⟨l, hl⟩ := Option.isSome_iff_exists.mp hs
    obtain ⟨e, d, hp, rfl, hmem⟩ := System.asleepOn_eq_some_iff.mp hl
    rw [hp] at hst
    have hwait : e.wait t b.system.now b.memory d .asleep = some st := hst
    have hnone : e.wait t b.system.now b.memory d .asleep = none := if_pos hmem
    rw [hnone] at hwait
    cases hwait

theorem Rests.calm (h : b.Rests t) : (b.system.phase t).Calm := by
  rcases h with hi | hs
  · rw [hi]
    exact trivial
  · obtain ⟨l, hl⟩ := Option.isSome_iff_exists.mp hs
    obtain ⟨e, d, hp, -⟩ := System.asleepOn_eq_some_iff.mp hl
    rw [hp]
    exact trivial

/-- The thread goes on by one or more actions. -/
abbrev Works (t : ThreadId) : Bench → Bench → Prop :=
  Relation.TransGen fun b b₁ => b.act t = some b₁

theorem runThread_succ (h : b.act t = some b₁) (n : Nat) :
    b.runThread (n + 1) t = b₁.runThread n t := by simp only [runThread, h]

theorem runThread_of_none (h : b.act t = none) (n : Nat) : b.runThread n t = b := by
  cases n with
  | zero => rfl
  | succ n => simp only [runThread, h]

theorem runThread_of_rests (h : b.Rests t) (n : Nat) : b.runThread n t = b :=
  runThread_of_none (act_eq_none_of_rests h) n

theorem runThread_add (m n : Nat) (b : Bench) (t : ThreadId) :
    b.runThread (m + n) t = (b.runThread m t).runThread n t := by
  induction m generalizing b with
  | zero => rw [Nat.zero_add, runThread]
  | succ m ih =>
    rw [Nat.add_right_comm]
    rcases hb : b.act t with _ | b₁
    · rw [runThread_of_none hb, runThread_of_none hb, runThread_of_none hb]
    · rw [runThread_succ hb, runThread_succ hb, ih]

theorem Works.exists_runThread (h : Works t b b₁) (n : Nat) :
    ∃ k, b.runThread k t = b₁.runThread n t := by
  induction h using Relation.TransGen.head_induction_on with
  | single hb => exact ⟨n + 1, runThread_succ hb n⟩
  | head hb _ ih =>
    obtain ⟨k, hk⟩ := ih
    exact ⟨k + 1, (runThread_succ hb k).trans hk⟩

theorem Works.runThread_of_rests (h : Works t b b₁) (hr : (b.runThread n t).Rests t) :
    ∃ k, k < n ∧ b.runThread n t = b₁.runThread k t := by
  induction h using Relation.TransGen.head_induction_on generalizing n with
  | @single b hb =>
    cases n with
    | zero =>
      have hnone : b.act t = none := act_eq_none_of_rests hr
      rw [hb] at hnone
      cases hnone
    | succ n => exact ⟨n, Nat.lt_succ_self n, runThread_succ hb n⟩
  | @head b c hb _ ih =>
    cases n with
    | zero =>
      have hnone : b.act t = none := act_eq_none_of_rests hr
      rw [hb] at hnone
      cases hnone
    | succ n =>
      rw [runThread_succ hb] at hr ⊢
      obtain ⟨k, hk, he⟩ := ih hr
      exact ⟨k, Nat.lt_succ_of_lt hk, he⟩

/-- A check that nobody disturbs is work. -/
theorem works_of_checks {s' : System} {e : Errand} {notes : List Note}
    (h : System.Checks t e b.system s' notes) :
    Works t b (notes.foldl (fun b n => b.takeNote t n) { b with system := s' }) := by
  generalize hs : b.system = s at h
  induction h generalizing b with
  | last _ ha _ =>
    exact .single (Option.map_eq_some_iff.mpr ⟨(_, _), hs ▸ ha, rfl⟩)
  | @more s s₁ s₂ c c' notes notes' hp ha hp' _ ih =>
    have hnil : notes = [] := by
      obtain ⟨m, v, -, rfl, rfl⟩ := (System.act_checking_iff hp).mp ha
      rw [System.phase_after, System.phase_judge] at hp'
      rw [hp']
      rfl
    subst hnil
    have hb : b.act t = some { b with system := s₁ } :=
      Option.map_eq_some_iff.mpr ⟨(s₁, []), hs ▸ ha, rfl⟩
    exact .head hb (ih rfl)

/-! ## Strides -/

/-- Thread `t` takes one action, or carries out a whole deadlock check. -/
inductive Strides (t : ThreadId) (b : Bench) : KeyedLocks.Step → Prop where
  | act {st : KeyedLocks.Step} : (∀ e c, b.system.phase t ≠ .checking e c) →
      (b.system.phase t).next t b.system.now b.memory = some st → Strides t b st
  | check {e : Errand} {v : Verdict} : b.system.phase t = .checking e .isLocked →
      System.Checks t e b.system (b.system.after t (e.judge b.memory v))
        (e.judge b.memory v).notes →
      v.Exact t e.lock b.memory b.memory → (∀ c, v ≠ .more c) → Strides t b (e.judge b.memory v)

/-- A check takes one stride if nobody is inside of a lock. -/
theorem strides_check {e : Errand} (hp : b.system.phase t = .checking e .isLocked)
    (hl : ∀ l, (b.memory.lock l).latch = none) : ∃ v, Strides t b (e.judge b.memory v) ∧
      v.Exact t e.lock b.memory b.memory ∧ ∀ c, v ≠ .more c := by
  obtain ⟨s', notes, hc⟩ := System.exists_checks hp fun l _ => hl l
  obtain ⟨m, v, hr, rfl, rfl⟩ := (System.checks_iff hp).mp hc
  obtain ⟨hv, hend⟩ := hr.exact .isLocked
  have hm : m = b.memory := by
    cases hv with
    | more => exact absurd rfl (hend _)
    | passed | cycle => rfl
  subst hm
  exact ⟨v, .check hp hc hv hend, hv, hend⟩

theorem Strides.works {st : KeyedLocks.Step} (h : Strides t b st) : Works t b (b.take t st) := by
  cases h with
  | act _ hst => exact .single (act_eq_some_iff.mpr ⟨st, hst, rfl⟩)
  | check _ hc => exact works_of_checks hc

theorem Strides.tells {st : KeyedLocks.Step} (h : Strides t b st) : st.Tells := by
  cases h with
  | act _ hst => exact Phase.next_tells hst
  | check => exact Errand.judge_tells _

theorem Strides.edits {st : KeyedLocks.Step} (h : Strides t b st) :
    (b.system.phase t).Edits b.memory st.memory := by
  cases h with
  | act _ hst => exact Phase.next_edits hst
  | @check e v hp hc hv hend =>
    cases v with
    | more c => exact absurd rfl (hend c)
    | passed => cases e <;> exact .refl
    | cycle => exact .forgoAll .refl _

theorem Strides.unique {st st' : KeyedLocks.Step} (h : Strides t b st) (h' : Strides t b st') :
    st = st' := by
  cases h with
  | act hc hst =>
    cases h' with
    | act _ hst' => exact Option.some.inj (hst.symm.trans hst')
    | check hp => exact absurd hp (hc _ _)
  | check hp _ hv hend =>
    cases h' with
    | act hc => exact absurd hp (hc _ _)
    | check hp' _ hv' hend' =>
      cases hp.symm.trans hp'
      cases hv with
      | more => exact absurd rfl (hend _)
      | passed hn =>
        cases hv' with
        | more => exact absurd rfl (hend' _)
        | passed => rfl
        | cycle hd => exact absurd hd hn
      | cycle hd =>
        cases hv' with
        | more => exact absurd rfl (hend' _)
        | passed hn => exact absurd hd hn
        | cycle => rfl

/-- A thread that goes on takes a stride, if it is not in the middle of a check. -/
theorem exists_stride (hb : b.act t = some b₁)
    (hc : ∀ e c, b.system.phase t = .checking e c → c = .isLocked)
    (hl : (∃ e c, b.system.phase t = .checking e c) → ∀ l, (b.memory.lock l).latch = none) :
    ∃ st, Strides t b st := by
  by_cases hcheck : ∃ e c, b.system.phase t = .checking e c
  · have hfree := hl hcheck
    obtain ⟨e, c, hp⟩ := hcheck
    obtain rfl := hc e c hp
    obtain ⟨v, hst, -⟩ := strides_check hp hfree
    exact ⟨_, hst⟩
  · obtain ⟨st, hst, -⟩ := act_eq_some_iff.mp hb
    exact ⟨st, .act (fun e c hp => hcheck ⟨e, c, hp⟩) hst⟩

/-- **A stride of a thread with a twin has a twin.** -/
theorem Mates.stride {π : Pairing} {mine : Slot → Prop} {kept : Nat → Prop}
    (h : Mates π mine kept b b') {job : Job} (hj : b.job? t = some job) (hk : kept job.step)
    (hl : (∃ e c, b'.system.phase t = .checking e c) → ∀ l, (b'.memory.lock l).latch = none)
    (hd : ∀ e e', b.system.phase t = .checking e .isLocked →
      b'.system.phase t = .checking e' .isLocked →
        (b'.memory.Deadlocked t e'.lock ↔ b.memory.Deadlocked t e.lock))
    {st : KeyedLocks.Step} (hst : Strides t b st) :
    ∃ ρ st', π.Grows b.memory b'.memory ρ ∧ Strides t b' st' ∧ st.Twin ρ st' := by
  obtain ⟨job', -, -, hphase⟩ := h.jobs t job hj hk
  cases hst with
  | act hc hst =>
    obtain ⟨ρ, st', hg, hst', htwin⟩ := hphase.next h.memory hc hst
    rw [← h.now] at hst'
    refine ⟨ρ, st', hg, .act (fun e c hp => ?_) hst', htwin⟩
    rw [hp] at hphase
    generalize b.system.phase t = p at hphase hc
    cases hphase
    exact hc _ _ rfl
  | @check e v hp hc hv hend =>
    rw [hp] at hphase
    generalize hq : b'.system.phase t = q at hphase
    cases hphase with
    | @checking a a' left ha =>
      obtain ⟨v', hst', hv', hend'⟩ := strides_check hq (hl ⟨_, _, hq⟩)
      have hiff := hd _ _ hp hq
      refine ⟨π, _, .refl, hst', ?_⟩
      cases hv with
      | more => exact absurd rfl (hend _)
      | passed hn =>
        cases hv' with
        | more => exact absurd rfl (hend' _)
        | passed => exact Step.twin_moveTo h.memory (.spend ha)
        | cycle hd' => exact absurd (hiff.mp hd') hn
      | cycle hd =>
        cases hv' with
        | more => exact absurd rfl (hend' _)
        | passed hn => exact absurd (hiff.mpr hd) hn
        | cycle =>
          have hid : (b'.memory.lock a'.lock).identifier = (b.memory.lock a.lock).identifier :=
            congrArg Lock.identifier (h.memory.lock ha.lock)
          simp only [Errand.judge, Errand.lock, hid]
          exact (Step.twin_finish (h.memory.forgoAll ..) (.refused _)).emit _ _

/-! ## What holds between strides -/

/-- A session is behind the bench on which only `t` is at work. -/
structure Sound (t : ThreadId) (b : Bench) : Prop where
  backs : ∃ x, Backs x b
  allows : b.allows (.act t)
  others : ∀ u, u ≠ t → (b.system.phase u).Calm

theorem Sound.free (h : Sound t b) (hc : ∃ e c, b.system.phase t = .checking e c) (l : LockId) :
    (b.memory.lock l).latch = none := by
  obtain ⟨x, hx⟩ := h.backs
  rw [Option.eq_none_iff_forall_ne_some]
  intro u hu
  have hpoised := hx.reachable.reached.poised l
  rw [← hx.system] at hpoised
  have hawake := hpoised.manned u hu
  by_cases hut : u = t
  · obtain ⟨e, c, hp⟩ := hc
    rw [hut, hp] at hawake
    rcases hawake with h | h <;> cases h
  · exact (h.others u hut).not_awake l hawake

theorem Ready.allows {x : Session} {course : Course} (h : Ready x b t course) (step : Nat) :
    (b.follow t step course).allows (.act t) := by
  have hidle : b.system.phase t = .idle := by
    rw [h.system]
    exact h.idle
  refine Bench.allows_act_iff.mpr fun table hp => ?_
  cases course with
  | answer a =>
    have hp : b.system.phase t = .acting (.retain table) := hp
    rw [hidle] at hp
    cases hp
  | call c p =>
    rw [follow_call hidle, System.phase_after] at hp
    rw [follow_call hidle]
    obtain ⟨ha, -, -⟩ := h.call c p rfl
    cases c with
    | act a =>
      cases hp
      have hname : table ∈ x.names := of_decide_eq_true ha
      have hcount := h.names table
      rw [Course.spends] at hcount
      refine List.count_pos_iff.mp ?_
      have hpos := List.count_pos_iff.mpr hname
      have hnil : List.count table (Call.spends (.act (.retain table))).toList = 0 := rfl
      show 0 < b.tables.count table
      omega
    | _ => cases hp

theorem Backs.idle {x : Session} (h : Backs x b) (hj : b.job? t = none) :
    b.system.phase t = .idle := by
  rw [h.system]
  exact (h.jobs t).idle hj

theorem Backs.job_of_act {x : Session} (h : Backs x b) (hb : b.act t = some b₁) :
    ∃ job, b.job? t = some job := by
  rw [← Option.ne_none_iff_exists']
  intro hj
  rw [act_eq_none_of_rests (.inl (h.idle hj))] at hb
  cases hb

theorem Strides.deadlock {x : Session} {st : KeyedLocks.Step} (hst : Strides t b st)
    (hx : Backs x b) {job : Job} (hj : b.job? t = some job) {e : Errand}
    (hp : b.system.phase t = .checking e .isLocked) (hd : b.memory.Deadlocked t e.lock) :
    ∃ i, ⟨t, job.step, .lockError (.deadlock i)⟩ ∈ (b.take t st).endings := by
  have hstore : ∃ slot, job.progress = .store slot := by
    have hminds := hx.jobs t
    unfold Minds at hminds
    rw [hx.system] at hp
    rw [hj, show x.phase t = _ from hp] at hminds
    obtain ⟨-, hfits⟩ := hminds
    obtain ⟨step, progress⟩ := job
    cases progress with
    | store slot => exact ⟨slot, rfl⟩
    | bind =>
      obtain ⟨table, hretain, -⟩ := hfits
      cases hretain
    | outcome | answer => cases hfits
    | climb | descend | dismiss => exact hfits.elim
  obtain ⟨slot, hslot⟩ := hstore
  cases hst with
  | act hc => exact absurd hp (hc _ _)
  | check hp' _ hv hend =>
    cases hp.symm.trans hp'
    cases hv with
    | more => exact absurd rfl (hend _)
    | passed hn => exact absurd hd hn
    | cycle =>
      have hanswers : (e.judge b.memory (.cycle (b.memory.lock e.lock).mutex.owner)).answers =
          [.refused (.deadlock (b.memory.lock e.lock).identifier)] := rfl
      have hmade : made? slot (.refused (.deadlock (b.memory.lock e.lock).identifier)) = none := by
        cases slot <;> rfl
      obtain ⟨events, events', he⟩ := take_of_answer hj hanswers
      refine ⟨(b.memory.lock e.lock).identifier, ?_⟩
      rw [he, hslot]
      simp only [resume, hmade]
      exact List.mem_append_right _ (List.mem_singleton_self _)

theorem Backs.allows_of_act {x : Session} (h : Backs x b) (ha : b.allows (.act t))
    (hb : b.act t = some b₁) : b₁.allows (.act t) := by
  obtain ⟨job, hj⟩ := h.job_of_act hb
  obtain ⟨y₁, hy₁⟩ := h.act ha hb
  obtain ⟨st, hst, rfl⟩ := act_eq_some_iff.mp hb
  have hax := h.allows_act ha
  have hstx : (x.phase t).next t x.system.now x.memory = some st := by
    rw [Bench.memory, h.system] at hst
    exact hst
  obtain ⟨y, hy⟩ := Session.exists_acted hstx
  have hsys : b.system.after t st = y.system := by rw [hy.system, h.system]
  by_cases hi : st.phase = .idle
  · obtain ⟨out, hans⟩ := (Phase.next_tells hst).answers_of_idle hi
    obtain ⟨events, events', he⟩ := take_of_answer hj hans
    rw [he, hsys]
    exact (h.resume hy hax hj hi hans events).allows job.step
  · -- The same job goes on, and it is not one that waits for a clone.
    obtain ⟨events, he⟩ := take_of_nil (b := b) (t := t)
      ((Phase.next_tells hst).answers_eq_nil hi)
    rw [he] at hy₁ ⊢
    have hfits := hy₁.jobs t
    unfold Minds at hfits
    rw [show Bench.job? { b with system := b.system.after t st, events } t = some job from hj]
      at hfits
    have hbefore := h.jobs t
    unfold Minds at hbefore
    rw [hj] at hbefore
    have hphase : y₁.phase t = st.phase := by
      show y₁.system.phase t = _
      rw [← hy₁.system]
      exact System.phase_after ..
    rw [hphase] at hfits
    refine Bench.allows_act_iff.mpr fun table hp => ?_
    have hp : (b.system.after t st).phase t = .acting (.retain table) := hp
    rw [System.phase_after] at hp
    obtain ⟨-, hfits⟩ := hfits
    rw [hp] at hfits
    obtain ⟨step, progress⟩ := job
    cases progress with
    | bind slot o =>
      obtain ⟨-, table', hp', -⟩ := hbefore
      rw [hp'] at hstx
      have hrun : (Action.retain table').run t x.memory = some st := hstx
      exact absurd (Action.phase_of_run hrun) hi
    | outcome | answer | store => cases hfits
    | climb | descend | dismiss => exact hfits.elim

theorem Sound.act (h : Sound t b) (hb : b.act t = some b₁) : Sound t b₁ := by
  obtain ⟨x, hx⟩ := h.backs
  refine ⟨hx.act h.allows hb, hx.allows_of_act h.allows hb, fun u hu => ?_⟩
  obtain ⟨job, hj⟩ := hx.job_of_act hb
  obtain ⟨st, hst, rfl⟩ := act_eq_some_iff.mp hb
  have hm := moves_take hj (Phase.next_edits hst) (Phase.next_tells hst)
  rw [hm.phases u hu]
  exact h.others u hu

theorem Sound.works (h : Sound t b) (hw : Works t b b₁) : Sound t b₁ := by
  induction hw with
  | single hb => exact h.act hb
  | tail _ hb ih => exact ih.act hb

theorem Sound.runThread (h : Sound t b) (n : Nat) : Sound t (b.runThread n t) := by
  induction n generalizing b with
  | zero => exact h
  | succ n ih =>
    unfold Bench.runThread
    split
    · exact h
    · next hb => exact ih (h.act hb)

/-- **What strides keep holds after a run to rest.** -/
theorem Sound.induct {P : Bench → Prop} (hs : Sound t b) (hr : (b.runThread n t).Rests t)
    (hcheck : ∀ c job e k, P c → c.job? t = some job → c.system.phase t = .checking e k →
      k = .isLocked)
    (hstep : ∀ c job st k, P c → Sound t c → c.job? t = some job → Strides t c st →
      (c.take t st).runThread k t = b.runThread n t → P (c.take t st)) (hp : P b) :
    P (b.runThread n t) := by
  generalize he : b.runThread n t = r at hr hstep ⊢
  induction n using Nat.strong_induction_on generalizing b with
  | _ n ih =>
    rcases hb : b.act t with _ | b₁
    · rw [← he, runThread_of_none hb]
      exact hp
    · obtain ⟨x, hx⟩ := hs.backs
      obtain ⟨job, hj⟩ := hx.job_of_act hb
      obtain ⟨st, hst⟩ := exists_stride hb (fun e k => hcheck b job e k hp hj) hs.free
      obtain ⟨k, hk, hrun⟩ := hst.works.runThread_of_rests (he.symm ▸ hr)
      rw [he] at hrun
      exact ih k hk (hs.works hst.works) (hstep b job st k hp hs hj hst hrun.symm) hrun.symm

end Bench

end Scenario

end KeyedLocks
