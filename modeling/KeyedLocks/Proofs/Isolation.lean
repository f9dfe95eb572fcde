import KeyedLocks.Proofs.Stints
import KeyedLocks.Proofs.Visibility

/-!
# Factories do not see each other

The steps in `kept` work on slots in `mine`, all others on other slots. `Bench.Halves` relates the
bench of a run to the bench of the run without the others: on the slots in `mine` they are mates,
and the rest of the first bench is a mate of itself. Each stint keeps this, if it is one of a kept
step and is carried out on both benches (`Halves.keep`), and also if it is one of another step and
is carried out on the first bench only (`Halves.spare`). A cycle on the second bench is one on the
first, so no check fails there that did not fail before (`Halves.deadlocked`). So the kept steps
give the same answers in both runs (`Bench.isolated`).
-/

namespace KeyedLocks

theorem exists_of_forall₂ {α β : Type} {R : α → β → Prop} {as : List α} {bs : List β}
    (h : List.Forall₂ R as bs) {a : α} (ha : a ∈ as) : ∃ b ∈ bs, R a b := by
  induction h with
  | nil => cases ha
  | cons hr _ ih =>
    rcases List.mem_cons.mp ha with rfl | ha
    · exact ⟨_, List.mem_cons_self .., hr⟩
    · obtain ⟨b, hb, h⟩ := ih ha
      exact ⟨b, List.mem_cons_of_mem _ hb, h⟩

namespace Scenario

/-- The steps in `kept` work on slots in `mine`, all others on others. The number of live factories
is no matter of some of them. -/
def Stint.Divides (mine : Slot → Prop) (kept : Nat → Bool) : Stint → Prop
  | deed step d =>
    if kept step then d ≠ .command .liveFactories ∧ ∀ s ∈ d.slots, mine s
    else ∀ s ∈ d.slots, ¬ mine s
  | resume .. | rouse .. | tick _ => True

def Answer.isDeadlock : Answer → Bool
  | lockError (.deadlock _) => true
  | _ => false

namespace Bench

/-- The step that a thread is still at. -/
def pending (b : Bench) (t : ThreadId) : Option Nat := (b.job? t).map (·.step)

/-- No operation has failed for a deadlock. -/
def Acyclic (b : Bench) : Prop := ∀ e ∈ b.endings, ¬ e.answer.isDeadlock

instance (b : Bench) : Decidable b.Acyclic :=
  inferInstanceAs (Decidable (∀ e ∈ b.endings, ¬ e.answer.isDeadlock))

section
variable {π δ ρ : Pairing} {mine : Slot → Prop} {b b₁ b' b₁' : Bench} {t : ThreadId} {step : Nat}

/-! ## Steps of twins -/

/-- Thread `t` went on with step `step` on both benches, on what has twins, and they are mates
again. -/
structure Paces (π ρ : Pairing) (mine : Slot → Prop) (kept : Nat → Prop) (step : Nat) (t : ThreadId)
    (b b₁ b' b₁' : Bench) : Prop where
  grows : π.Grows b.memory b'.memory ρ
  mates : Mates ρ mine kept b₁ b₁'
  echoes : Echoes step t b b₁ b' b₁'
  moves : Moves (fun l => ∃ l', π.lock l l') (fun j => ∃ j', π.table j j') mine t b b₁
  follows : Moves (fun _ => True) (fun _ => True) mine t b' b₁'
  step : ∀ job, b.job? t = some job ∨ b₁.job? t = some job → job.step = step

theorem Progress.Twin.slots {p p' : Progress} (hp : p.Twin π mine p') {s : Slot} :
    (s ∈ p.slots → mine s) ∧ (s ∈ p'.slots → mine s) := by
  cases hp with
  | outcome | answer => exact ⟨nofun, nofun⟩
  | store hs | bind hs =>
    exact ⟨fun h => List.mem_singleton.mp h ▸ hs, fun h => List.mem_singleton.mp h ▸ hs⟩

section
variable {kept : Nat → Prop}

/-- **A stride of a thread with a twin is one on both benches.** -/
theorem Mates.paces (h : Mates π mine kept b b') {job : Job} (hj : b.job? t = some job)
    (hk : kept job.step)
    (hl : (∃ e c, b'.system.phase t = .checking e c) → ∀ l, (b'.memory.lock l).latch = none)
    (hd : ∀ e e', b.system.phase t = .checking e .isLocked →
      b'.system.phase t = .checking e' .isLocked →
        (b'.memory.Deadlocked t e'.lock ↔ b.memory.Deadlocked t e.lock))
    {st : KeyedLocks.Step} (hst : Strides t b st) : ∃ ρ st', Strides t b' st' ∧
      Paces π ρ mine kept job.step t b (b.take t st) b' (b'.take t st') := by
  obtain ⟨ρ, st', hg, hst', htwin⟩ := h.stride hj hk hl hd hst
  obtain ⟨job', hj', hjob, hphase⟩ := h.jobs t job hj hk
  have hm := moves_take hj hst.edits hst.tells
  have hm' := moves_take hj' hst'.edits hst'.tells
  obtain ⟨hmates, hechoes⟩ := h.take hj hk hg htwin hst.tells hm hm'
  refine ⟨ρ, st', hst', hg, hmates, hechoes, hm.mono (fun l hl => ?_) (fun j hj => ?_) ?_,
    hm'.mono (fun _ _ => trivial) (fun _ _ => trivial) ?_, ?_⟩
  · obtain ⟨l', -, hl'⟩ := exists_of_forall₂ hphase.locks hl
    exact ⟨l', hl'⟩
  · obtain ⟨j', -, hj'⟩ := exists_of_forall₂ hphase.tables hj
    exact ⟨j', hj'⟩
  · exact fun s => (Progress.Twin.slots hjob.progress).1
  · exact fun s => (Progress.Twin.slots hjob.progress).2
  · rintro job₁ (hj₁ | hj₁)
    · exact congrArg Job.step (Option.some.inj (hj₁.symm.trans hj))
    · exact step_of_take hj hst.tells hj₁

theorem Shares.asleepOn (h : Shares π mine b b')
    (hp : (b.system.phase t).Twin π (b'.system.phase t)) :
    Option.Rel π.lock (b.system.asleepOn t) (b'.system.asleepOn t) := by
  unfold System.asleepOn
  generalize b.system.phase t = p, b'.system.phase t = q at hp
  cases hp with
  | @waiting a a' left d s ha =>
    cases s with
    | asleep =>
      have hlock : b'.system.memory.lock a'.lock = b.system.memory.lock a.lock :=
        h.memory.lock ha.lock
      show Option.Rel π.lock
        (if t ∈ (b.system.memory.lock a.lock).sleepers then some a.lock else none)
        (if t ∈ (b'.system.memory.lock a'.lock).sleepers then some a'.lock else none)
      rw [hlock]
      split
      · exact .some ha.lock
      · exact .none
    | enter | checkFlag | doze => exact .none
  | _ => exact .none

theorem Mates.rouse (h : Mates π mine kept b b') (hat : b.isAt t step) (hk : kept step)
    (hb : b.turn (.rouse t) = some b₁) : ∃ b₁', b'.turn (.rouse t) = some b₁' ∧
      Paces π π mine kept step t b b₁ b' b₁' := by
  obtain ⟨s, hs, rfl⟩ := Option.map_eq_some_iff.mp hb
  obtain ⟨l, hl, rfl⟩ := System.rouse_eq_some_iff.mp hs
  obtain ⟨job, hj, hstep⟩ := (Option.any_eq_true _ _).mp hat
  obtain rfl : job.step = step := of_decide_eq_true hstep
  obtain ⟨-, -, -, hphase⟩ := h.jobs t job hj hk
  obtain ⟨l', hl', hlock⟩ : ∃ l', b'.system.asleepOn t = some l' ∧ π.lock l l' := by
    have hasleep := h.asleepOn hphase
    rw [hl] at hasleep
    generalize b'.system.asleepOn t = o at hasleep
    cases hasleep with
    | some hlock => exact ⟨_, rfl, hlock⟩
  refine ⟨_, Option.map_eq_some_iff.mpr ⟨_, System.rouse_eq_some_iff.mpr ⟨l', hl', rfl⟩, rfl⟩, ?_⟩
  exact {
    grows := .refl
    mates := ⟨⟨h.memory.modifyLock hlock _, h.now, h.workers, h.slots⟩, h.jobs⟩
    echoes := ⟨⟨[], (List.append_nil _).symm, (List.append_nil _).symm, nofun⟩,
      fun hn => absurd (hn.symm.trans hj) nofun⟩
    moves := ⟨.lock _ .refl ⟨_, hlock⟩, rfl, rfl, fun _ _ => rfl, fun _ _ => rfl, fun _ _ => rfl⟩
    follows := ⟨.lock _ .refl trivial, rfl, rfl, fun _ _ => rfl, fun _ _ => rfl, fun _ _ => rfl⟩
    step := fun job₁ hj₁ =>
      congrArg Job.step (Option.some.inj ((hj₁.elim id id : b.job? t = _).symm.trans hj)) }

theorem Mates.starts (h : Mates π mine kept b b') {d : Deed} (hd : d.onFactories)
    (hi : ∀ target, d ≠ .command (.interrupt target))
    (hl : d = .command .liveFactories → b'.memory.liveCount = b.memory.liveCount)
    (hs : ∀ s ∈ d.slots, mine s) (hf : b.free d) (hf' : b'.free d)
    (hj' : b'.job? (b.start d).2.1 = none)
    (hidle : b.system.phase (b.start d).2.1 = .idle)
    (hidle' : b'.system.phase (b.start d).2.1 = .idle) (hb : b.turn (.deed step d) = some b₁) :
    ∃ b₁', b'.turn (.deed step d) = some b₁' ∧ (b'.start d).2.1 = (b.start d).2.1 ∧
      Paces π π mine kept step (b.start d).2.1 b b₁ b' b₁' := by
  obtain ⟨b₁', hb', ht, hmates, hechoes⟩ := h.deed hd hi hl hs hf hf' hj' hidle hidle' hb
  have hm : Moves (fun _ => False) (fun _ => False) _ _ b b₁ := moves_deed hb hidle
  have hm' : Moves (fun _ => False) (fun _ => False) _ _ b' b₁' := moves_deed hb' (ht ▸ hidle')
  rw [ht] at hm'
  refine ⟨b₁', hb', ht, .refl, hmates, hechoes, hm.mono (fun _ h => h.elim) (fun _ h => h.elim) hs,
    hm'.mono (fun _ h => h.elim) (fun _ h => h.elim) hs, ?_⟩
  rintro job (hj | hj)
  · rw [(turn_deed_eq_some_iff.mp hb).1] at hj
    cases hj
  · exact step_of_deed hb hidle hj

end

/-! ## The two halves of a bench -/

/-- On the slots in `mine` two benches are mates, what is on the other slots of the first does not
touch that, and the second has nothing else. -/
structure Halves (π δ : Pairing) (mine : Slot → Prop) (kept : Nat → Bool) (b b' : Bench) :
    Prop where
  mates : Mates π mine (kept ·) b b'
  rest : Mates δ (¬ mine ·) (¬ kept ·) b b
  lock_same : ∀ {l k}, δ.lock l k → l = k
  table_same : ∀ {j k}, δ.table j k → j = k
  lock_apart : ∀ {l l'}, π.lock l l' → ¬ δ.lock l l
  table_apart : ∀ {j j'}, π.table j j' → ¬ δ.table j j
  slots : ∀ s, ¬ mine s → b'.find? s = none
  jobs : ∀ t, b'.pending t = (b.pending t).filter kept
  endings : b'.endings = b.endings.filter (kept ·.step)

namespace Halves

variable {kept : Nat → Bool}

theorem job (h : Halves π δ mine kept b b') {job' : Job} (hj : b'.job? t = some job') :
    ∃ job, b.job? t = some job ∧ kept job.step ∧ job.Twin π mine job' ∧
      (b.system.phase t).Twin π (b'.system.phase t) := by
  have hp := h.jobs t
  rw [pending, pending, hj] at hp
  obtain ⟨hs, hk⟩ := Option.filter_eq_some_iff.mp hp.symm
  obtain ⟨job, hjob, hstep⟩ := Option.map_eq_some_iff.mp hs
  rw [← hstep] at hk
  obtain ⟨job'', hj'', htwin, hphase⟩ := h.mates.jobs t job hjob hk
  rw [hj] at hj''
  cases hj''
  exact ⟨job, hjob, hk, htwin, hphase⟩

theorem job?_eq_none (h : Halves π δ mine kept b b') (hj : b.job? t = none) :
    b'.job? t = none := by
  rw [Option.eq_none_iff_forall_ne_some]
  intro job' hj'
  obtain ⟨job, hjob, -⟩ := h.job hj'
  rw [hj] at hjob
  cases hjob

theorem keep (h : Halves π δ mine kept b b') (hk : kept step)
    (hp : Paces π ρ mine (kept ·) step t b b₁ b' b₁') : Halves ρ δ mine kept b₁ b₁' where
  mates := hp.mates
  rest := by
    refine h.rest.frame hp.moves hp.moves (fun l k hl => ?_) (fun j k hj => ?_) ?_
      ⟨hp.mates.memory.quiet.1, hp.mates.memory.quiet.1⟩ fun job hj => ?_
    · obtain rfl := h.lock_same hl
      exact ⟨fun ⟨l', hl'⟩ => h.lock_apart hl' hl, fun ⟨l', hl'⟩ => h.lock_apart hl' hl⟩
    · obtain rfl := h.table_same hj
      exact ⟨fun ⟨j', hj'⟩ => h.table_apart hj' hj, fun ⟨j', hj'⟩ => h.table_apart hj' hj⟩
    · exact fun s hs => ⟨hs, hs⟩
    · rw [hp.step job (.inr hj)]
      exact not_not_intro hk
  lock_same := h.lock_same
  table_same := h.table_same
  lock_apart hl hd := by
    rcases hp.grows.new_lock hl with hl | ⟨rfl, -⟩
    · exact h.lock_apart hl hd
    · exact Nat.lt_irrefl _ (h.rest.memory.lock_known hd).1
  table_apart hj hd := by
    rcases hp.grows.new_table hj with hj | ⟨rfl, -⟩
    · exact h.table_apart hj hd
    · exact Nat.lt_irrefl _ (h.rest.memory.table_known hd).1
  slots s hs := (hp.follows.slots s hs).trans (h.slots s hs)
  jobs u := by
    unfold pending
    by_cases hu : u = t
    · subst hu
      rcases hj : b₁.job? u with _ | job
      · rw [hp.echoes.done hj]
        rfl
      · have hjk : kept job.step := hp.step job (.inr hj) ▸ hk
        obtain ⟨job', hj', htwin, -⟩ := hp.mates.jobs u job hj hjk
        rw [hj', Option.map_some, Option.map_some, htwin.step, Option.filter_some_pos hjk]
    · rw [hp.moves.jobs u hu, hp.follows.jobs u hu]
      exact h.jobs u
  endings := by
    obtain ⟨es, he, he', hes⟩ := hp.echoes.endings
    rw [he, he', h.endings, List.filter_append]
    refine congrArg _ (List.filter_eq_self.mpr fun e hm => ?_).symm
    rw [hes e hm]
    exact hk

theorem spare (h : Halves π δ mine kept b b') (hk : ¬ kept step)
    (hp : Paces δ ρ (¬ mine ·) (¬ kept ·) step t b b₁ b b₁) : Halves π ρ mine kept b₁ b' where
  mates := by
    refine h.mates.frame hp.moves (.refl (L := fun _ => False) (T := fun _ => False)
      (S := fun _ => False)) (fun l l' hl => ⟨fun ⟨k, hd⟩ => ?_, id⟩)
      (fun j j' hj => ⟨fun ⟨k, hd⟩ => ?_, id⟩) (fun s hs => ⟨not_not_intro hs, id⟩)
      ⟨hp.mates.memory.quiet.1, h.mates.memory.quiet.2⟩ fun job hj => ?_
    · obtain rfl := h.lock_same hd
      exact h.lock_apart hl hd
    · obtain rfl := h.table_same hd
      exact h.table_apart hj hd
    · rw [hp.step job (.inr hj)]
      exact hk
  rest := hp.mates
  lock_same hl := by
    rcases hp.grows.new_lock hl with hl | ⟨rfl, he⟩
    · exact h.lock_same hl
    · exact he.symm
  table_same hj := by
    rcases hp.grows.new_table hj with hj | ⟨rfl, he⟩
    · exact h.table_same hj
    · exact he.symm
  lock_apart hl hd := by
    rcases hp.grows.new_lock hd with hd | ⟨rfl, -⟩
    · exact h.lock_apart hl hd
    · exact Nat.lt_irrefl _ (h.mates.memory.lock_known hl).1
  table_apart hj hd := by
    rcases hp.grows.new_table hd with hd | ⟨rfl, -⟩
    · exact h.table_apart hj hd
    · exact Nat.lt_irrefl _ (h.mates.memory.table_known hj).1
  slots := h.slots
  jobs u := by
    unfold pending
    by_cases hu : u = t
    · subst hu
      have hnone {b : Bench} (hj : ∀ job, b.job? u = some job → job.step = step) :
          (b.pending u).filter kept = none := by
        rw [Option.filter_eq_none_iff]
        intro s hs
        obtain ⟨job, hjob, rfl⟩ := Option.map_eq_some_iff.mp hs
        rw [hj job hjob]
        exact hk
      exact (h.jobs u).trans ((hnone fun job hj => hp.step job (.inl hj)).trans
        (hnone fun job hj => hp.step job (.inr hj)).symm)
    · rw [hp.moves.jobs u hu]
      exact h.jobs u
  endings := by
    obtain ⟨es, he, -, hes⟩ := hp.echoes.endings
    rw [he, h.endings, List.filter_append]
    refine (List.append_right_eq_self.mpr (List.filter_eq_nil_iff.mpr fun e hm => ?_)).symm
    rw [hes e hm]
    exact hk

/-! ### Cycles -/

theorem refers (h : Halves π δ mine kept b b') {x' : Session} (hx' : Backs x' b') {j' : TableId}
    (hj : b'.Refers j') : ∃ j, π.table j j' ∧ b.Refers j := by
  rcases hj with ⟨⟨s, o'⟩, he, ht⟩ | ⟨t, ht⟩
  · have hf : b'.find? s = some o' := lookup_of_mem hx'.keys he
    by_cases hs : mine s
    · have hslot := h.mates.slots s hs
      rw [hf] at hslot
      generalize ho : b.find? s = o at hslot
      cases hslot with
      | some htwin =>
        have hrefers {j : TableId} (hj : Object.table? _ = some j) : b.Refers j :=
          .inl ⟨_, mem_of_lookup ho, hj⟩
        cases htwin with
        | table hj => cases ht; exact ⟨_, hj, hrefers rfl⟩
        | handle hh | guard hh => cases ht; exact ⟨_, hh.table, hrefers rfl⟩
    · rw [h.slots s hs] at hf
      cases hf
  · rcases hj : b'.job? t with _ | job'
    · rw [hx'.idle hj] at ht
      cases ht
    · obtain ⟨-, -, -, -, hphase⟩ := h.job hj
      obtain ⟨j, hj, hjj⟩ := exists_of_forall₂ hphase.refs.flip ht
      exact ⟨j, hjj, .inr ⟨t, hj⟩⟩

/-- **A cycle on the second bench is one on the first.** -/
theorem deadlocked (h : Halves π δ mine kept b b') {x x' : Session} (hx : Backs x b)
    (hx' : Backs x' b') {l l' : LockId} (hl : π.lock l l') (hd : b'.memory.Deadlocked t l') :
    b.memory.Deadlocked t l := by
  obtain ⟨o, ho, hne, hpath⟩ := hd
  rw [h.mates.memory.lock hl] at ho
  refine ⟨o, ho, hne, Relation.TransGen.mono (fun w w' hw => ?_) _ _ hpath⟩
  obtain ⟨k', hk', hblocks⟩ := Memory.blocks_snapshot.mp hw
  obtain ⟨j', hj', hk'⟩ := List.mem_flatMap.mp hk'
  obtain ⟨j, hj, href⟩ := h.refers hx' (hx'.mem_liveTables_iff.mp hj')
  obtain ⟨k, hk, hkk⟩ := exists_of_forall₂ (h.mates.memory.locks hj).flip hk'
  rw [h.mates.memory.lock hkk] at hblocks
  exact Memory.blocks_snapshot.mpr
    ⟨k, List.mem_flatMap.mpr ⟨j, hx.mem_liveTables_iff.mpr href, hk⟩, hblocks⟩

theorem rests (h : Halves π δ mine kept b b') {x' : Session} (hx' : Backs x' b')
    (hr : b.Rests t) : b'.Rests t := by
  rcases hj : b'.job? t with _ | job'
  · exact .inl (hx'.idle hj)
  · obtain ⟨-, -, -, -, hphase⟩ := h.job hj
    refine hr.imp hphase.idle_iff.mp fun hs => ?_
    have hasleep := h.mates.asleepOn hphase
    generalize b.system.asleepOn t = o, b'.system.asleepOn t = o' at hs hasleep
    cases hasleep with
    | none => exact hs
    | some => rfl

/-! ### Strides and runs -/

theorem stride_keep (h : Halves π δ mine kept b b') (hs : Sound t b) (hs' : Sound t b') {job : Job}
    (hj : b.job? t = some job) (hk : kept job.step) {st : KeyedLocks.Step} (hst : Strides t b st)
    (hn : (b.take t st).Acyclic) :
    ∃ ρ st', Strides t b' st' ∧ Halves ρ δ mine kept (b.take t st) (b'.take t st') := by
  obtain ⟨x, hx⟩ := hs.backs
  obtain ⟨x', hx'⟩ := hs'.backs
  obtain ⟨-, -, -, hphase⟩ := h.mates.jobs t job hj hk
  have hd : ∀ e e', b.system.phase t = .checking e .isLocked →
      b'.system.phase t = .checking e' .isLocked →
        (b'.memory.Deadlocked t e'.lock ↔ b.memory.Deadlocked t e.lock) := by
    intro e e' he he'
    rw [he, he'] at hphase
    cases hphase with
    | checking ha =>
      refine ⟨h.deadlocked hx hx' ha.lock, fun hd => ?_⟩
      obtain ⟨i, hend⟩ := hst.deadlock hx hj he hd
      exact (hn _ hend rfl).elim
  obtain ⟨ρ, st', hst', hp⟩ := h.mates.paces hj hk hs'.free hd hst
  exact ⟨ρ, st', hst', h.keep hk hp⟩

theorem stride_spare (h : Halves π δ mine kept b b') (hs : Sound t b) {job : Job}
    (hj : b.job? t = some job) (hk : ¬ kept job.step) {st : KeyedLocks.Step}
    (hst : Strides t b st) : ∃ ρ, Halves π ρ mine kept (b.take t st) b' := by
  have hd : ∀ e e', b.system.phase t = .checking e .isLocked →
      b.system.phase t = .checking e' .isLocked →
        (b.memory.Deadlocked t e'.lock ↔ b.memory.Deadlocked t e.lock) := by
    intro e e' he he'
    cases he.symm.trans he'
    rfl
  obtain ⟨ρ, st', hst', hp⟩ := h.rest.paces hj hk hs.free hd hst
  obtain rfl := hst.unique hst'
  exact ⟨ρ, h.spare hk hp⟩

theorem run_keep (h : Halves π δ mine kept b b') (hs : Sound t b) (hs' : Sound t b')
    (hk : ∀ job, b.job? t = some job → kept job.step) {n : Nat} (hr : (b.runThread n t).Rests t)
    (hn : (b.runThread n t).Acyclic) : ∃ ρ m, (b'.runThread m t).Rests t ∧
      Halves ρ δ mine kept (b.runThread n t) (b'.runThread m t) := by
  suffices hall : (∀ job, (b.runThread n t).job? t = some job → kept job.step) ∧
      ∃ ρ m, Halves ρ δ mine kept (b.runThread n t) (b'.runThread m t) by
    obtain ⟨-, ρ, m, h⟩ := hall
    obtain ⟨x', hx'⟩ := (hs'.runThread m).backs
    exact ⟨ρ, m, h.rests hx' hr, h⟩
  refine hs.induct (P := fun c => (∀ job, c.job? t = some job → kept job.step) ∧
    ∃ ρ m, Halves ρ δ mine kept c (b'.runThread m t)) hr ?_ ?_ ⟨hk, π, 0, h⟩
  · rintro c job e k ⟨hk, ρ, m, h⟩ hj hp
    obtain ⟨-, -, -, hphase⟩ := h.mates.jobs t job hj (hk job hj)
    exact hphase.isLocked hp
  · rintro c job st k ⟨hk, ρ, m, h⟩ hs hj hst hrun
    have hc : (c.take t st).Acyclic := fun e he =>
      hn e ((hrun ▸ endings_runThread k _ t).subset he)
    obtain ⟨ρ, st', hst', h⟩ := h.stride_keep hs (hs'.runThread m) hj (hk job hj) hst hc
    obtain ⟨m', hm'⟩ := hst'.works.exists_runThread 0
    refine ⟨fun job₁ hj₁ => step_of_take hj hst.tells hj₁ ▸ hk job hj, ρ, m + m', ?_⟩
    rw [runThread_add, hm']
    exact h

theorem run_spare (h : Halves π δ mine kept b b') (hs : Sound t b)
    (hk : ∀ job, b.job? t = some job → ¬ kept job.step) {n : Nat}
    (hr : (b.runThread n t).Rests t) : ∃ ρ, Halves π ρ mine kept (b.runThread n t) b' := by
  refine (hs.induct (P := fun c => (∀ job, c.job? t = some job → ¬ kept job.step) ∧
    ∃ ρ, Halves π ρ mine kept c b') hr ?_ ?_ ⟨hk, δ, h⟩).2
  · rintro c job e k ⟨hk, ρ, h⟩ hj hp
    obtain ⟨-, -, -, hphase⟩ := h.rest.jobs t job hj (hk job hj)
    exact hphase.isLocked hp
  · rintro c job st k ⟨hk, ρ, h⟩ hs hj hst -
    obtain ⟨ρ, h⟩ := h.stride_spare hs hj (hk job hj) hst
    exact ⟨fun job₁ hj₁ => step_of_take hj hst.tells hj₁ ▸ hk job hj, ρ, h⟩

/-! ### Stints -/

theorem free (h : Halves π δ mine kept b b') {d : Deed} (hf : b.free d) : b'.free d := by
  unfold Bench.free at hf ⊢
  cases hw : d.worker? with
  | none => rfl
  | some worker =>
    rw [hw] at hf
    exact Option.isNone_iff_eq_none.mpr (h.job?_eq_none (Option.isNone_iff_eq_none.mp hf))

theorem isAt (h : Halves π δ mine kept b b') (hk : kept step) (hat : b.isAt t step) :
    b'.isAt t step := by
  obtain ⟨job, hj, hstep⟩ := (Option.any_eq_true _ _).mp hat
  obtain rfl : job.step = step := of_decide_eq_true hstep
  obtain ⟨job', hj', htwin, -⟩ := h.mates.jobs t job hj hk
  exact (Option.any_eq_true _ _).mpr ⟨job', hj', decide_eq_true htwin.step⟩

theorem tick (h : Halves π δ mine kept b b') (nanos : Nat) :
    Halves π δ mine kept { b with system := b.system.tick nanos }
      { b' with system := b'.system.tick nanos } :=
  { h with
    mates := { h.mates with now := congrArg (· + nanos) h.mates.now }
    rest := { h.rest with now := rfl } }

/-- **A stint of a kept step is one on both benches.** -/
theorem stint_keep (h : Halves π δ mine kept b b') (hs : b.Settled) (hs' : b'.Settled) {x : Stint}
    (hx : x.Plain) (hd : x.Divides mine kept) (hk : x.step?.all kept) {fuel : Nat}
    (hb : b.stint fuel x = some b₁) (hn : b₁.Acyclic) :
    ∃ ρ n b₁', b'.stint n x = some b₁' ∧ Halves ρ δ mine kept b₁ b₁' := by
  cases x with
  | deed step d =>
    have hk : kept step := hk
    rw [Stint.Divides, if_pos hk] at hd
    obtain ⟨hlive, hslots⟩ := hd
    simp only [Bench.stint] at hb ⊢
    split at hb
    · next hf =>
      obtain ⟨c, hc, hb⟩ := Option.bind_eq_some_iff.mp hb
      obtain ⟨rfl, hr⟩ := finish_eq_some_iff.mp hb
      have hj := (turn_deed_eq_some_iff.mp hc).1
      obtain ⟨c', hc', ht, hp⟩ := h.mates.starts hx.1 hx.2 (fun he => absurd he hlive) hslots hf
        (h.free hf) (h.job?_eq_none hj) (hs.idle hj) (hs'.idle (h.job?_eq_none hj)) hc
      obtain ⟨ρ, m, hr', h'⟩ := (h.keep hk hp).run_keep (hs.deed hx.1 hc) (ht ▸ hs'.deed hx.1 hc')
        (fun job hj => hp.step job (.inr hj) ▸ hk) hr hn
      refine ⟨ρ, m, _, ?_, h'⟩
      rw [if_pos (h.free hf), hc', ht]
      exact finish_eq_some_iff.mpr ⟨rfl, hr'⟩
    · cases hb
  | resume step t =>
    have hk : kept step := hk
    simp only [Bench.stint] at hb ⊢
    split at hb
    · next hat =>
      obtain ⟨rfl, hr⟩ := finish_eq_some_iff.mp hb
      obtain ⟨job, hj, hstep⟩ := (Option.any_eq_true _ _).mp hat
      obtain rfl : job.step = step := of_decide_eq_true hstep
      obtain ⟨ρ, m, hr', h'⟩ := h.run_keep (hs.sound t) (hs'.sound t)
        (fun job' hj' => Option.some.inj (hj.symm.trans hj') ▸ hk) hr hn
      exact ⟨ρ, m, _, (if_pos (h.isAt hk hat)).trans (finish_eq_some_iff.mpr ⟨rfl, hr'⟩), h'⟩
    · cases hb
  | rouse step t =>
    have hk : kept step := hk
    simp only [Bench.stint] at hb ⊢
    split at hb
    · next hat =>
      obtain ⟨b₁', hb', hp⟩ := h.mates.rouse hat hk hb
      exact ⟨π, 0, b₁', (if_pos (h.isAt hk hat)).trans hb', h.keep hk hp⟩
    · cases hb
  | tick nanos =>
    cases hb
    exact ⟨π, 0, _, rfl, h.tick nanos⟩

/-- **A stint of another step may be left out.** -/
theorem stint_spare (h : Halves π δ mine kept b b') (hs : b.Settled) {x : Stint} (hx : x.Plain)
    (hd : x.Divides mine kept) (hk : ¬ x.step?.all kept) {fuel : Nat}
    (hb : b.stint fuel x = some b₁) : ∃ ρ, Halves π ρ mine kept b₁ b' := by
  cases x with
  | deed step d =>
    have hk : ¬ kept step := hk
    rw [Stint.Divides, if_neg hk] at hd
    simp only [Bench.stint] at hb
    split at hb
    · next hf =>
      obtain ⟨c, hc, hb⟩ := Option.bind_eq_some_iff.mp hb
      obtain ⟨rfl, hr⟩ := finish_eq_some_iff.mp hb
      have hj := (turn_deed_eq_some_iff.mp hc).1
      obtain ⟨c', hc', -, hp⟩ := h.rest.starts hx.1 hx.2 (fun _ => rfl) hd hf hf hj (hs.idle hj)
        (hs.idle hj) hc
      rw [hc] at hc'
      cases hc'
      exact (h.spare hk hp).run_spare (hs.deed hx.1 hc)
        (fun job hj => hp.step job (.inr hj) ▸ hk) hr
    · cases hb
  | resume step t =>
    have hk : ¬ kept step := hk
    simp only [Bench.stint] at hb
    split at hb
    · next hat =>
      obtain ⟨rfl, hr⟩ := finish_eq_some_iff.mp hb
      obtain ⟨job, hj, hstep⟩ := (Option.any_eq_true _ _).mp hat
      obtain rfl : job.step = step := of_decide_eq_true hstep
      exact h.run_spare (hs.sound t) (fun job' hj' => Option.some.inj (hj.symm.trans hj') ▸ hk) hr
    · cases hb
  | rouse step t =>
    have hk : ¬ kept step := hk
    simp only [Bench.stint] at hb
    split at hb
    · next hat =>
      obtain ⟨b₁', hb', hp⟩ := h.rest.rouse hat hk hb
      rw [hb] at hb'
      cases hb'
      exact ⟨δ, h.spare hk hp⟩
    · cases hb
  | tick nanos => exact absurd rfl hk

/-- **A run goes on without the other steps.** -/
theorem serial (h : Halves π δ mine kept b b') (hs : b.Settled) (hs' : b'.Settled) {xs : List Stint}
    (hx : ∀ x ∈ xs, x.Plain ∧ x.Divides mine kept) (hb : Serial b xs b₁) (hn : b₁.Acyclic) :
    ∃ π' δ' b₁', Serial b' (xs.filter (·.step?.all kept)) b₁' ∧ Halves π' δ' mine kept b₁ b₁' := by
  induction hb generalizing π δ b' with
  | nil => exact ⟨π, δ, b', .nil b', h⟩
  | @cons b c b₁ x xs fuel hstint hxs ih =>
    obtain ⟨hplain, hdivides⟩ := hx x (List.mem_cons_self ..)
    have hrest := fun y hy => hx y (List.mem_cons_of_mem _ hy)
    rw [List.filter_cons]
    split
    · next hk =>
      have hc : c.Acyclic := fun e he => hn e (hxs.endings.subset he)
      obtain ⟨ρ, n, c', hstint', h⟩ := h.stint_keep hs hs' hplain hdivides hk hstint hc
      obtain ⟨π', δ', b₁', hb', h⟩ :=
        ih h (hs.stint hplain hstint) (hs'.stint hplain hstint') hrest hn
      exact ⟨π', δ', b₁', .cons hstint' hb', h⟩
    · next hk =>
      obtain ⟨ρ, h⟩ := h.stint_spare hs hplain hdivides hk hstint
      exact ih h (hs.stint hplain hstint) hs' hrest hn

end Halves

theorem halves_start (workers : Nat) (mine : Slot → Prop) (kept : Nat → Bool) :
    Halves ⟨fun _ _ => False, fun _ _ => False⟩ ⟨fun _ _ => False, fun _ _ => False⟩ mine kept
      { workers } { workers } := by
  have hmates (mine : Slot → Prop) (kept : Nat → Prop) :
      Mates ⟨fun _ _ => False, fun _ _ => False⟩ mine kept { workers } { workers } :=
    ⟨⟨⟨nofun, nofun, nofun, nofun, nofun, nofun, nofun, rfl, rfl⟩, rfl, rfl, fun _ _ => .none⟩,
      fun _ => nofun⟩
  exact ⟨hmates .., hmates .., nofun, nofun, nofun, nofun, fun _ _ => rfl, fun _ => rfl, rfl⟩

end

/-- **Factories do not see each other.** A run in which nobody is interrupted and no operation fails
for a deadlock can be carried out without the steps on some of the factories, in one way: the other
steps give the same answers as before, one after the other, and the same of them are still under
way. -/
theorem Serial.isolated {workers : Nat} {mine : Slot → Prop} {kept : Nat → Bool} {xs : List Stint}
    {b : Bench} (h : Serial { workers } xs b) (hx : ∀ x ∈ xs, x.Plain ∧ x.Divides mine kept)
    (hn : b.Acyclic) : ∃ b', Serial { workers } (xs.filter (·.step?.all kept)) b' ∧
      (∀ c, Serial { workers } (xs.filter (·.step?.all kept)) c → c = b') ∧
      b'.endings = b.endings.filter (kept ·.step) ∧
      ∀ t, b'.pending t = (b.pending t).filter kept := by
  obtain ⟨π, δ, b', hb', hhalves⟩ := (halves_start workers mine kept).serial
    (settled_start workers) (settled_start workers) hx h hn
  exact ⟨b', hb', fun c hc => hc.unique hb', hhalves.endings, hhalves.jobs⟩

/-- Worker 0 has "k" of both factories when worker 1 waits for one of them, which it gets later;
then worker 0 waits for it. -/
def neighbours : List Stint :=
  [.deed 1 (.command (.factory "f" .unlimited)), .deed 2 (.command (.factory "g" .unlimited)),
    .deed 3 (.task 0 (.obtain "f" "k" "h")), .deed 4 (.task 0 (.obtain "g" "k" "x")),
    .deed 5 (.task 1 (.obtain "f" "k" "i")), .deed 6 (.command (.queueLength "f" "k")),
    .deed 7 (.command (.isLocked "g" "k")), .deed 8 (.task 0 (.release "x")), .tick 1,
    .deed 9 (.task 0 (.release "h")), .resume 5 1, .deed 10 (.task 1 (.handleState "i")),
    .deed 11 (.task 0 (.obtain "f" "k" "h")), .deed 12 (.command (.activeLocks "g"))]

/-- The names of the factory "f" and of what it hands out. -/
def ofFirst (s : Slot) : Prop := s = .factory "f" ∨ s = .handle "h" ∨ s = .handle "i"

theorem isolated_neighbours : ∃ b, Serial { workers := 2 } neighbours b ∧
    (b.Acyclic ∧ b.endings.map (·.step) = [1, 2, 3, 4, 6, 7, 8, 9, 5, 10, 12] ∧
      b.pending 0 = some 11) ∧
    (∀ x ∈ neighbours, x.Plain ∧ x.Divides ofFirst (· ∈ [1, 3, 5, 6, 9, 10, 11])) ∧
    ∃ b', Serial { workers := 2 }
        (neighbours.filter (·.step?.all (· ∈ [1, 3, 5, 6, 9, 10, 11]))) b' ∧
      (∀ c, Serial { workers := 2 }
        (neighbours.filter (·.step?.all (· ∈ [1, 3, 5, 6, 9, 10, 11]))) c → c = b') ∧
      b'.endings = b.endings.filter (·.step ∈ [1, 3, 5, 6, 9, 10, 11]) ∧
      ∀ t, b'.pending t = (b.pending t).filter (· ∈ [1, 3, 5, 6, 9, 10, 11]) := by
  obtain ⟨b, hb, hn, hp⟩ := exists_of_serial (b := { workers := 2 }) 60 neighbours
    (p := fun b => b.Acyclic ∧ b.endings.map (·.step) = [1, 2, 3, 4, 6, 7, 8, 9, 5, 10, 12] ∧
      b.pending 0 = some 11) (by decide +kernel)
  have hx : ∀ x ∈ neighbours, x.Plain ∧ x.Divides ofFirst (· ∈ [1, 3, 5, 6, 9, 10, 11]) := by
    simp [neighbours, Stint.Plain, Stint.Divides, Deed.onFactories, Command.onFactories,
      Task.onFactories, Deed.slots, Command.slots, Task.slots, ofFirst]
  exact ⟨b, hb, ⟨hn, hp⟩, hx, hb.isolated hx hn⟩

end Bench

end Scenario

end KeyedLocks
