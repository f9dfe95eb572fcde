import KeyedLocks.Proofs.Bench
import KeyedLocks.Proofs.Twins

/-!
# Benches that agree on some slots and some jobs

`Bench.Mates π mine kept b b'`: the slots in `mine` have twins in them, and the jobs of the steps in
`kept` are at twin points on both benches. What a thread with such a job does leads to mates again
(`Mates.take`), and so does a deed on such slots (`Shares.start`, `Mates.follow`). What anybody does
on other slots leaves mates alone (`Mates.frame`); `Moves` says what may change that way.
-/

namespace KeyedLocks

namespace Scenario

/-! ## What is stored, and what jobs are about -/

section
variable (π : Pairing) (mine : Slot → Prop)

inductive Object.Twin : Object → Object → Prop where
  | table {t t' : TableId} : π.table t t' → Twin (.table t) (.table t')
  | handle {h h' : Handle} : h.Twin π h' → Twin (.handle h) (.handle h')
  | guard {h h' : Handle} : h.Twin π h' → Twin (.guard h) (.guard h')

inductive Progress.Twin : Progress → Progress → Prop where
  | outcome : Twin .outcome .outcome
  | answer (a : Answer) : Twin (.answer a) (.answer a)
  | store {slot : Slot} : mine slot → Twin (.store slot) (.store slot)
  | bind {slot : Slot} {o o' : Object} : mine slot → o.Twin π o' →
      Twin (.bind slot o) (.bind slot o')

inductive Course.Twin : Course → Course → Prop where
  | answer (a : Answer) : Twin (.answer a) (.answer a)
  | call {c c' : Call} {p p' : Progress} : c.Twin π c' → p.Twin π mine p' →
      Twin (.call c p) (.call c' p')

structure Job.Twin (job job' : Job) : Prop where
  step : job'.step = job.step
  progress : job.progress.Twin π mine job'.progress

end

section
variable {π ρ : Pairing} {mine : Slot → Prop} {m m' : Memory}

theorem Object.Twin.grow {o o' : Object} (ho : o.Twin π o') (hg : π.Grows m m' ρ) :
    o.Twin ρ o' := by
  cases ho with
  | table ht => exact .table (hg.table ht)
  | handle hh => exact .handle (hh.grow hg)
  | guard hh => exact .guard (hh.grow hg)

theorem Object.rel_grow {o o' : Option Object} (ho : Option.Rel (Object.Twin π) o o')
    (hg : π.Grows m m' ρ) : Option.Rel (Object.Twin ρ) o o' := by
  cases ho with
  | none => exact .none
  | some ho => exact .some (ho.grow hg)

theorem Progress.Twin.grow {p p' : Progress} (hp : p.Twin π mine p') (hg : π.Grows m m' ρ) :
    p.Twin ρ mine p' := by
  cases hp with
  | outcome => exact .outcome
  | answer a => exact .answer a
  | store hs => exact .store hs
  | bind hs ho => exact .bind hs (ho.grow hg)

theorem Job.Twin.grow {job job' : Job} (hj : job.Twin π mine job') (hg : π.Grows m m' ρ) :
    job.Twin ρ mine job' := ⟨hj.step, hj.progress.grow hg⟩

theorem Object.Twin.farewell {o o' : Object} (ho : o.Twin π o') :
    Option.Rel (Call.Twin π) o.farewell o'.farewell := by
  cases ho with
  | table ht => exact .some (.forgo ht)
  | handle hh => exact .some (.forgo hh.table)
  | guard hh => exact .some (.dropGuard hh)

end

/-- The slots a command works with. -/
def Command.slots : Command → List Slot
  | .factory f _ | .dropFactory f | .activeLocks f | .isLocked f _ | .queueLength f _
  | .factoryPolicy f => [.factory f]
  | .cloneFactory f other => [.factory f, .factory other]
  | .cloneHandle h other => [.handle h, .handle other]
  | .dropHandle h => [.handle h]
  | .newMutex m => [.mutex m]
  | .newEntry e _ | .grabEntry e _ | .closeEntry e => [.entry e]
  | .sameEntry e other => [.entry e, .entry other]
  | .wake slot => [slot]
  | .liveFactories | .interrupt _ | .isInterrupted _ | .clearInterruptFor _ | .settle => []

/-- The slots a task of worker `me` works with. -/
def Task.slots (me : ThreadId) : Task → List Slot
  | .obtain f _ h => [.factory f, .handle h]
  | .guard f _ g => [.factory f, .guard me g]
  | .intoGuard h g => [.handle h, .guard me g]
  | .dropGuard g | .guardState g => [.guard me g]
  | .handleState h | .release h => [.handle h]
  | .within f _ _ => [.factory f]
  | .tryLock m | .tryLockFor m _ | .unlock m | .mutexState m => [.mutex m]
  | .entryLock e _ | .entryUnlock e | .entryState e | .checkDeadlock e => [.entry e]
  | .clearInterrupt => []

def Deed.slots : Deed → List Slot
  | .command c => c.slots
  | .task worker k => k.slots worker
  | .unknown _ => []

/-- The worker who is to carry out a deed, if it is not the conductor. -/
def Deed.worker? : Deed → Option Nat
  | .command _ => none
  | .task worker _ | .unknown worker => some worker

/-- The slots a job may change. -/
def Progress.slots : Progress → List Slot
  | .store slot | .bind slot _ => [slot]
  | .outcome | .answer _ | .climb .. | .descend .. | .dismiss .. => []

namespace Bench

/-! ## Changes of slots -/

/-- Nothing is different but what is in some slots. -/
structure Restocks (S : List Slot) (b b₁ : Bench) : Prop where
  eq : b₁ = { b with slots := b₁.slots }
  find? : ∀ s, s ∉ S → b₁.find? s = b.find? s

section
variable {S : List Slot} {b b₁ b₂ : Bench} {slot : Slot}

theorem Restocks.refl : Restocks S b b := ⟨rfl, fun _ _ => rfl⟩

theorem Restocks.mono (h : Restocks S b b₁) {S' : List Slot} (hs : ∀ s ∈ S, s ∈ S') :
    Restocks S' b b₁ := ⟨h.eq, fun s hn => h.find? s fun hm => hn (hs s hm)⟩

theorem Restocks.trans (h : Restocks S b b₁) (h' : Restocks S b₁ b₂) : Restocks S b b₂ where
  eq := by rw [h'.eq, h.eq]
  find? s hs := (h'.find? s hs).trans (h.find? s hs)

theorem Restocks.endings (h : Restocks S b b₁) : b₁.endings = b.endings := by rw [h.eq]

theorem find?_erase (b : Bench) (slot s : Slot) :
    (b.erase slot).find? s = if s = slot then none else b.find? s := lookup_without ..

theorem find?_put (b : Bench) (slot : Slot) (o : Object) (a : Answer) (s : Slot) :
    (b.put slot o a).1.find? s = if s = slot then some o else b.find? s := by
  have hcons : ((slot, o) :: (b.erase slot).slots).lookup s =
      if s = slot then some o else b.find? s := by
    rw [List.lookup_cons]
    by_cases hs : s = slot
    · rw [if_pos hs, beq_iff_eq.mpr hs]
    · rw [if_neg hs, beq_false_of_ne hs]
      exact (find?_erase b slot s).trans (if_neg hs)
  unfold put
  dsimp only
  split <;> exact hcons

theorem restocks_erase : Restocks [slot] b (b.erase slot) :=
  ⟨rfl, fun s hs => (find?_erase b slot s).trans (if_neg fun he => hs (List.mem_singleton.mpr he))⟩

theorem restocks_put (o : Object) (a : Answer) : Restocks [slot] b (b.put slot o a).1 where
  eq := by
    unfold put
    dsimp only
    split <;> rfl
  find? s hs :=
    (find?_put b slot o a s).trans (if_neg fun he => hs (List.mem_singleton.mpr he))

theorem restocks_dismiss (o : Object) : Restocks [slot] b (b.dismiss slot o).1 := by
  unfold dismiss
  split <;> exact restocks_erase

theorem restocks_resume (b : Bench) (t : ThreadId) (o : Outcome) (p : Progress) :
    Restocks p.slots b (b.resume t o p).1 := by
  cases p with
  | outcome | answer | dismiss => exact .refl
  | store slot =>
    simp only [resume]
    split
    · exact .refl
    · exact restocks_put ..
  | bind slot object => exact restocks_put ..
  | climb =>
    simp only [resume]
    split
    · split <;> exact .refl
    · exact .refl
  | descend =>
    simp only [resume]
    split
    · split <;> exact .refl
    · exact .refl

theorem restocks_command (b : Bench) (c : Command) : Restocks c.slots b (b.command c).1 := by
  cases c with
  | factory | cloneFactory | cloneHandle | interrupt | clearInterruptFor | closeEntry | wake =>
    simp only [command]
    split <;> exact .refl
  | dropFactory | dropHandle =>
    simp only [command]
    split
    · exact .refl
    · exact restocks_dismiss _
  | grabEntry =>
    simp only [command]
    split
    · exact restocks_put ..
    · exact .refl
  | liveFactories | activeLocks | isLocked | queueLength | factoryPolicy | isInterrupted
  | newMutex | newEntry | sameEntry | settle => exact .refl

theorem restocks_task (b : Bench) (me : ThreadId) (k : Task) :
    Restocks (k.slots me) b (b.task me k).1 := by
  cases k with
  | obtain | guard | release =>
    simp only [task]
    split <;> exact .refl
  | intoGuard h g =>
    simp only [task]
    split
    · exact .refl
    · refine (restocks_erase.mono fun s hs => ?_).trans ((restocks_put ..).mono fun s hs => ?_)
      · exact List.mem_cons.mpr (.inl (List.mem_singleton.mp hs))
      · exact List.mem_cons_of_mem _ hs
  | dropGuard =>
    simp only [task]
    split
    · exact .refl
    · exact restocks_dismiss _
  | within =>
    simp only [task]
    split <;> exact .refl
  | tryLock | tryLockFor | unlock | mutexState | entryLock | entryUnlock | entryState
  | checkDeadlock =>
    simp only [task, onLock]
    split <;> exact .refl
  | guardState | handleState | clearInterrupt => exact .refl

theorem restocks_start (b : Bench) (d : Deed) : Restocks d.slots b (b.start d).1 := by
  cases d with
  | command c => exact restocks_command b c
  | task worker k =>
    simp only [start]
    split
    · exact .refl
    · exact restocks_task b worker k
  | unknown worker => exact .refl

end

/-! ## What a turn may change -/

/-- A turn of thread `t` changes locks in `L`, the entries of tables in `T`, what is in the slots in
`S`, and what `t` is about. -/
structure Moves (L : LockId → Prop) (T : TableId → Prop) (S : Slot → Prop) (t : ThreadId)
    (b b₁ : Bench) : Prop where
  memory : b.memory.Edits L T b₁.memory
  now : b₁.system.now = b.system.now
  workers : b₁.workers = b.workers
  slots : ∀ s, ¬ S s → b₁.find? s = b.find? s
  jobs : ∀ u, u ≠ t → b₁.job? u = b.job? u
  phases : ∀ u, u ≠ t → b₁.system.phase u = b.system.phase u

section
variable {L : LockId → Prop} {T : TableId → Prop} {S : Slot → Prop} {t : ThreadId}
  {b b₁ b₂ : Bench} {step : Nat} {course : Course}

theorem Moves.refl : Moves L T S t b b :=
  ⟨.refl, rfl, rfl, fun _ _ => rfl, fun _ _ => rfl, fun _ _ => rfl⟩

theorem Moves.trans (h : Moves L T S t b b₁) (h' : Moves L T S t b₁ b₂) : Moves L T S t b b₂ where
  memory := h.memory.trans h'.memory
  now := h'.now.trans h.now
  workers := h'.workers.trans h.workers
  slots s hs := (h'.slots s hs).trans (h.slots s hs)
  jobs u hu := (h'.jobs u hu).trans (h.jobs u hu)
  phases u hu := (h'.phases u hu).trans (h.phases u hu)

theorem Moves.mono (h : Moves L T S t b b₁) {L' : LockId → Prop} {T' : TableId → Prop}
    {S' : Slot → Prop} (hl : ∀ l, L l → L' l) (ht : ∀ j, T j → T' j) (hs : ∀ s, S s → S' s) :
    Moves L' T' S' t b b₁ :=
  { h with memory := h.memory.mono hl ht, slots := fun s hn => h.slots s fun hm => hn (hs s hm) }

theorem Restocks.moves {slots : List Slot} (h : Restocks slots b b₁) :
    Moves L T (· ∈ slots) t b b₁ := by
  have heq := h.eq
  refine ⟨?_, ?_, ?_, h.find?, ?_, ?_⟩
  · rw [heq]
    exact .refl
  · rw [heq]
  · rw [heq]
  · intro u _
    rw [heq]
    rfl
  · intro u _
    rw [heq]

theorem follow_call (hi : b.system.phase t = .idle) (step : Nat) (c : Call) (p : Progress) :
    b.follow t step (.call c p) =
      { b.dropJob t with
        system := b.system.after t
          (.moveTo (c.begin b.system.now b.memory).1 (c.begin b.system.now b.memory).2)
        jobs := (t, { step, progress := p }) :: (b.dropJob t).jobs } := by
  have hcall : b.system.call t c = some (b.system.after t
      (.moveTo (c.begin b.system.now b.memory).1 (c.begin b.system.now b.memory).2)) :=
    System.call_eq_some_iff.mpr ⟨hi, rfl⟩
  simp only [follow, hcall]

theorem moves_follow (hi : b.system.phase t = .idle) (step : Nat) (course : Course) :
    Moves L T S t b (b.follow t step course) := by
  have hjobs (u : ThreadId) (hu : u ≠ t) := job?_follow_of_ne (b := b) hu step course
  cases course with
  | answer a => exact ⟨.refl, rfl, rfl, fun _ _ => rfl, hjobs, fun _ _ => rfl⟩
  | call c p =>
    rw [follow_call hi] at hjobs ⊢
    exact ⟨c.begin_edits _ _ L T, rfl, rfl, fun _ _ => rfl, hjobs,
      fun u hu => System.phase_after_of_ne _ _ _ hu⟩

theorem step_of_follow (hi : b.system.phase t = .idle) {job : Job}
    (hj : (b.follow t step course).job? t = some job) : job.step = step := by
  cases course with
  | answer a =>
    have hj : (b.dropJob t).job? t = some job := hj
    rw [job?_dropJob, if_pos rfl] at hj
    cases hj
  | call c p =>
    rw [follow_call hi] at hj
    have hj : ((t, { step, progress := p }) :: (b.dropJob t).jobs).lookup t = some job := hj
    rw [List.lookup_cons_self] at hj
    cases hj
    rfl

/-- The phase of a thread that took a step to its end, before its job goes on. -/
theorem phase_resume {st : KeyedLocks.Step} (hi : st.phase = .idle)
    (events : List (ThreadId × Event)) (o : Outcome) (p : Progress) :
    (Bench.resume { b with system := b.system.after t st, events } t o p).1.system.phase t =
      .idle := by
  rw [(restocks_resume ..).eq]
  exact (System.phase_after ..).trans hi

theorem moves_take {st : KeyedLocks.Step} {job : Job} (hj : b.job? t = some job)
    (he : b.memory.Edits L T st.memory) (hst : st.Tells) :
    Moves L T (· ∈ job.progress.slots) t b (b.take t st) := by
  have hafter (events : List (ThreadId × Event)) : Moves L T (· ∈ job.progress.slots) t b
      { b with system := b.system.after t st, events } :=
    ⟨he, rfl, rfl, fun _ _ => rfl, fun _ _ => rfl, fun u hu => System.phase_after_of_ne _ _ _ hu⟩
  by_cases hi : st.phase = .idle
  · obtain ⟨out, hans⟩ := hst.answers_of_idle hi
    obtain ⟨events, events', htake⟩ := take_of_answer hj hans
    have hresume := (hafter events).trans (restocks_resume _ t out job.progress).moves
    have hfollow := hresume.trans (moves_follow (phase_resume hi events out job.progress) job.step
      (Bench.resume { b with system := b.system.after t st, events } t out job.progress).2)
    rw [htake]
    exact ⟨hfollow.memory, hfollow.now, hfollow.workers, hfollow.slots, hfollow.jobs,
      hfollow.phases⟩
  · obtain ⟨events, htake⟩ := take_of_nil (b := b) (t := t) (hst.answers_eq_nil hi)
    rw [htake]
    exact hafter events

theorem step_of_take {st : KeyedLocks.Step} {job job₁ : Job} (hj : b.job? t = some job)
    (hst : st.Tells) (hj₁ : (b.take t st).job? t = some job₁) : job₁.step = job.step := by
  by_cases hi : st.phase = .idle
  · obtain ⟨out, hans⟩ := hst.answers_of_idle hi
    obtain ⟨events, events', htake⟩ := take_of_answer hj hans
    rw [htake] at hj₁
    exact step_of_follow (phase_resume hi events out job.progress) hj₁
  · obtain ⟨events, htake⟩ := take_of_nil (b := b) (t := t) (hst.answers_eq_nil hi)
    rw [htake] at hj₁
    have hj₁ : b.job? t = some job₁ := hj₁
    rw [hj] at hj₁
    cases hj₁
    rfl

end

/-! ## Mates -/

/-- The slots in `mine` have twins in them. -/
structure Shares (π : Pairing) (mine : Slot → Prop) (b b' : Bench) : Prop where
  memory : b.memory.Twins π b'.memory
  now : b'.system.now = b.system.now
  workers : b'.workers = b.workers
  slots : ∀ s, mine s → Option.Rel (Object.Twin π) (b.find? s) (b'.find? s)

/-- If thread `t` has a job of a step in `kept`, it is at a twin point on the other bench. -/
def Pairs (π : Pairing) (mine : Slot → Prop) (kept : Nat → Prop) (b b' : Bench) (t : ThreadId) :
    Prop :=
  ∀ job, b.job? t = some job → kept job.step → ∃ job', b'.job? t = some job' ∧
    job.Twin π mine job' ∧ (b.system.phase t).Twin π (b'.system.phase t)

structure Mates (π : Pairing) (mine : Slot → Prop) (kept : Nat → Prop) (b b' : Bench) : Prop extends
    Shares π mine b b' where
  jobs : ∀ t, Pairs π mine kept b b' t

/-- Thread `t` gives the same answers on both benches, as step `step`, and is done on both. -/
structure Echoes (step : Nat) (t : ThreadId) (b b₁ b' b₁' : Bench) : Prop where
  endings : ∃ es, b₁.endings = b.endings ++ es ∧ b₁'.endings = b'.endings ++ es ∧
    ∀ e ∈ es, e.step = step
  done : b₁.job? t = none → b₁'.job? t = none

section
variable {π ρ : Pairing} {mine : Slot → Prop} {kept : Nat → Prop} {b b₁ b' b₁' : Bench}
  {t : ThreadId} {slot : Slot} {o o' : Object}

theorem Pairs.congr (h : Pairs π mine kept b b' t) (hg : π.Grows b.memory b'.memory ρ)
    (hj : b₁.job? t = b.job? t) (hp : b₁.system.phase t = b.system.phase t)
    (hj' : b₁'.job? t = b'.job? t) (hp' : b₁'.system.phase t = b'.system.phase t) :
    Pairs ρ mine kept b₁ b₁' t := by
  intro job hjob hk
  rw [hj] at hjob
  obtain ⟨job', hjob', htwin, hphase⟩ := h job hjob hk
  rw [hj', hp, hp']
  exact ⟨job', hjob', htwin.grow hg, hphase.grow hg⟩

theorem Mates.frame (h : Mates π mine kept b b') {L L' : LockId → Prop} {T T' : TableId → Prop}
    {S S' : Slot → Prop} (hm : Moves L T S t b b₁) (hm' : Moves L' T' S' t b' b₁')
    (hl : ∀ l l', π.lock l l' → ¬ L l ∧ ¬ L' l') (ht : ∀ j j', π.table j j' → ¬ T j ∧ ¬ T' j')
    (hs : ∀ s, mine s → ¬ S s ∧ ¬ S' s)
    (hq : b₁.memory.interrupted = [] ∧ b₁'.memory.interrupted = [])
    (hj : ∀ job, b₁.job? t = some job → ¬ kept job.step) : Mates π mine kept b₁ b₁' where
  memory := h.memory.edits hm.memory hm'.memory hl ht hq
  now := by rw [hm.now, hm'.now, h.now]
  workers := by rw [hm.workers, hm'.workers, h.workers]
  slots s hmine := by
    rw [hm.slots s (hs s hmine).1, hm'.slots s (hs s hmine).2]
    exact h.slots s hmine
  jobs u := by
    by_cases hu : u = t
    · subst hu
      exact fun job hjob hk => absurd hk (hj job hjob)
    · exact (h.jobs u).congr .refl (hm.jobs u hu)
        (hm.phases u hu) (hm'.jobs u hu) (hm'.phases u hu)

/-! ## Slots -/

theorem Shares.table? (h : Shares π mine b b') {f : String} (hf : mine (.factory f)) :
    Option.Rel π.table (b.table? f) (b'.table? f) := by
  have hslot := h.slots _ hf
  unfold Bench.table?
  generalize b.find? (.factory f) = o, b'.find? (.factory f) = o' at hslot
  cases hslot with
  | none => exact .none
  | some ho =>
    cases ho with
    | table ht => exact .some ht
    | handle | guard => exact .none

theorem Shares.handle? (h : Shares π mine b b') (hs : mine slot) :
    Option.Rel (Handle.Twin π) (b.handle? slot) (b'.handle? slot) := by
  have hslot := h.slots _ hs
  unfold Bench.handle?
  generalize b.find? slot = o, b'.find? slot = o' at hslot
  cases hslot with
  | none => exact .none
  | some ho =>
    cases ho with
    | table => exact .none
    | handle hh | guard hh => exact .some hh

theorem Shares.restock (h : Shares π mine b b') {S S' : List Slot} (hr : Restocks S b b₁)
    (hr' : Restocks S' b' b₁')
    (hs : ∀ s, mine s → Option.Rel (Object.Twin π) (b₁.find? s) (b₁'.find? s)) :
    Shares π mine b₁ b₁' where
  memory := by
    rw [hr.eq, hr'.eq]
    exact h.memory
  now := by
    rw [hr.eq, hr'.eq]
    exact h.now
  workers := by
    rw [hr.eq, hr'.eq]
    exact h.workers
  slots := hs

theorem Shares.erase (h : Shares π mine b b') (slot : Slot) :
    Shares π mine (b.erase slot) (b'.erase slot) := by
  refine h.restock restocks_erase restocks_erase fun s hs => ?_
  rw [find?_erase, find?_erase]
  split
  · exact .none
  · exact h.slots s hs

/-- Two benches are shares, and go on in the same way. -/
def Agree (π : Pairing) (mine : Slot → Prop) (r r' : Bench × Course) : Prop :=
  Shares π mine r.1 r'.1 ∧ r.2.Twin π mine r'.2

theorem Shares.put (h : Shares π mine b b') (hs : mine slot) (ho : o.Twin π o') (a : Answer) :
    Agree π mine (b.put slot o a) (b'.put slot o' a) := by
  constructor
  · refine h.restock (restocks_put ..) (restocks_put ..) fun s hmine => ?_
    rw [find?_put, find?_put]
    split
    · exact .some ho
    · exact h.slots s hmine
  · have hslot := h.slots slot hs
    unfold Bench.put
    generalize b.find? slot = old, b'.find? slot = old' at hslot
    cases hslot with
    | none => exact .answer a
    | @some old old' hold =>
      have hbye := hold.farewell
      dsimp only
      rw [Option.bind_some, Option.bind_some]
      generalize old.farewell = c, old'.farewell = c' at hbye
      cases hbye with
      | none => exact .answer a
      | some hc => exact .call hc (.answer a)

theorem Shares.dismiss (h : Shares π mine b b') (ho : o.Twin π o') :
    Agree π mine (b.dismiss slot o) (b'.dismiss slot o') := by
  have hbye := ho.farewell
  unfold Bench.dismiss
  generalize o.farewell = c, o'.farewell = c' at hbye
  cases hbye with
  | none => exact ⟨h.erase slot, .answer _⟩
  | some hc => exact ⟨h.erase slot, .call hc (.answer _)⟩

theorem Shares.identifierOf (h : Shares π mine b b') {g g' : Handle} (hg : g.Twin π g') :
    b'.identifierOf g' = b.identifierOf g := congrArg Lock.identifier (h.memory.lock hg.lock)

theorem Shares.isHeld (h : Shares π mine b b') {g g' : Handle} (hg : g.Twin π g') (me : ThreadId) :
    b'.isHeld me g' = b.isHeld me g :=
  congrArg (fun k : Lock => k.mutex.isHeldBy me) (h.memory.lock hg.lock)

/-! ## Deeds and answers -/

theorem Shares.resume (h : Shares π mine b b') {out out' : Outcome} (hout : out.Twin π out')
    {p p' : Progress} (hp : p.Twin π mine p') (t : ThreadId) :
    Agree π mine (b.resume t out p) (b'.resume t out' p') := by
  cases hp with
  | outcome => exact ⟨h, by cases hout <;> exact .answer _⟩
  | answer a => exact ⟨h, .answer a⟩
  | @store slot hs =>
    cases hout with
    | @obtained g g' hg =>
      have hput {o o' : Object} (ho : o.Twin π o') :
          Agree π mine (b.put slot o (.locked (b.identifierOf g)))
            (b'.put slot o' (.locked (b'.identifierOf g'))) := by
        rw [h.identifierOf hg]
        exact h.put hs ho _
      cases slot with
      | guard => exact hput (.guard hg)
      | factory | handle | mutex | entry => exact hput (.handle hg)
    | tableMade ht =>
      have hput := h.put hs (.table ht) .ok
      cases slot <;> exact hput
    | refused | released | cleared | done =>
      simp only [Bench.resume, made?]
      exact ⟨h, .answer _⟩
  | bind hs ho => exact h.put hs ho .ok

theorem Shares.command (h : Shares π mine b b') {c : Command} (hc : c.onFactories)
    (hi : ∀ target, c ≠ .interrupt target)
    (hl : c = .liveFactories → b'.memory.liveCount = b.memory.liveCount)
    (hs : ∀ s ∈ c.slots, mine s) : Agree π mine (b.command c) (b'.command c) := by
  have htable {f : String} (hf : .factory f ∈ c.slots) := h.table? (hs _ hf)
  have hhandle {slot : Slot} (hg : slot ∈ c.slots) := h.handle? (hs _ hg)
  cases c with
  | factory f source =>
    simp only [Bench.command]
    split
    · exact ⟨h, .answer _⟩
    · exact ⟨h, .call .makeTable (.store (hs _ (List.mem_singleton_self _)))⟩
  | cloneFactory f other =>
    have hf := htable (List.mem_cons_self ..)
    simp only [Bench.command]
    generalize b.table? f = j, b'.table? f = j' at hf
    cases hf with
    | none => exact ⟨h, .answer _⟩
    | some ht =>
      have hother := hs (.factory other) (List.mem_cons_of_mem _ (List.mem_singleton_self _))
      exact ⟨h, .call (.retain ht) (.bind hother (.table ht))⟩
  | dropFactory f =>
    have hf := htable (List.mem_singleton_self _)
    simp only [Bench.command]
    generalize b.table? f = j, b'.table? f = j' at hf
    cases hf with
    | none => exact ⟨h, .answer _⟩
    | some ht => exact h.dismiss (.table ht)
  | liveFactories =>
    refine ⟨h, ?_⟩
    simp only [Bench.command, hl rfl]
    exact .answer _
  | activeLocks f | isLocked f identifier | queueLength f identifier | factoryPolicy f =>
    have hf := htable (List.mem_singleton_self _)
    refine ⟨h, ?_⟩
    simp only [Bench.command]
    generalize b.table? f = j, b'.table? f = j' at hf
    cases hf with
    | none => exact .answer _
    | some ht =>
      simp only [h.memory.activeLocks ht, Memory.isLocked, Memory.queueLength, h.memory.entry? ht,
        h.memory.policy ht]
      exact .answer _
  | cloneHandle g other =>
    have hf := hhandle (List.mem_cons_self ..)
    simp only [Bench.command]
    generalize b.handle? (.handle g) = j, b'.handle? (.handle g) = j' at hf
    cases hf with
    | none => exact ⟨h, .answer _⟩
    | some hg =>
      have hother := hs (.handle other) (List.mem_cons_of_mem _ (List.mem_singleton_self _))
      exact ⟨h, .call (.retain hg.table) (.bind hother (.handle hg))⟩
  | dropHandle g =>
    have hf := hhandle (List.mem_singleton_self _)
    simp only [Bench.command]
    generalize b.handle? (.handle g) = j, b'.handle? (.handle g) = j' at hf
    cases hf with
    | none => exact ⟨h, .answer _⟩
    | some hg => exact h.dismiss (.handle hg)
  | interrupt target => exact absurd rfl (hi target)
  | isInterrupted target =>
    refine ⟨h, ?_⟩
    simp only [Bench.command, h.workers, Memory.isInterrupted, h.memory.quiet]
    exact .answer _
  | clearInterruptFor target =>
    simp only [Bench.command, h.workers]
    split
    · exact ⟨h, .call .clearInterrupt .outcome⟩
    · exact ⟨h, .answer _⟩
  | settle => exact ⟨h, .answer _⟩
  | newMutex | newEntry | grabEntry | closeEntry | sameEntry | wake => cases hc

theorem Shares.task (h : Shares π mine b b') {me : ThreadId} {k : Task} (hk : k.onFactories)
    (hs : ∀ s ∈ k.slots me, mine s) : Agree π mine (b.task me k) (b'.task me k) := by
  have hhandle {slot : Slot} (hg : slot ∈ k.slots me) := h.handle? (hs _ hg)
  cases k with
  | obtain f identifier g | guard f identifier g =>
    have hf := h.table? (hs _ (List.mem_cons_self ..))
    have hslot := hs _ (List.mem_cons_of_mem _ (List.mem_singleton_self _))
    simp only [Bench.task]
    generalize b.table? f = j, b'.table? f = j' at hf
    cases hf with
    | none => exact ⟨h, .answer _⟩
    | some ht => exact ⟨h, .call (.obtain ht) (.store hslot)⟩
  | intoGuard g g' =>
    have hf := hhandle (List.mem_cons_self ..)
    simp only [Bench.task]
    generalize b.handle? (.handle g) = j, b'.handle? (.handle g) = j' at hf
    cases hf with
    | none => exact ⟨h, .answer _⟩
    | some hg =>
      exact (h.erase _).put (hs _ (List.mem_cons_of_mem _ (List.mem_singleton_self _)))
        (.guard hg) _
  | dropGuard g =>
    have hf := hhandle (List.mem_singleton_self _)
    simp only [Bench.task]
    generalize b.handle? (.guard me g) = j, b'.handle? (.guard me g) = j' at hf
    cases hf with
    | none => exact ⟨h, .answer _⟩
    | some hg => exact h.dismiss (.guard hg)
  | guardState g =>
    have hf := hhandle (List.mem_singleton_self _)
    refine ⟨h, ?_⟩
    simp only [Bench.task]
    generalize b.handle? (.guard me g) = j, b'.handle? (.guard me g) = j' at hf
    cases hf with
    | none => exact .answer _
    | some hg =>
      simp only [h.identifierOf hg, h.isHeld hg]
      exact .answer _
  | handleState g =>
    have hf := hhandle (List.mem_singleton_self _)
    refine ⟨h, ?_⟩
    simp only [Bench.task]
    generalize b.handle? (.handle g) = j, b'.handle? (.handle g) = j' at hf
    cases hf with
    | none => exact .answer _
    | some hg =>
      simp only [h.identifierOf hg, h.isHeld hg]
      exact .answer _
  | release g =>
    have hf := hhandle (List.mem_singleton_self _)
    simp only [Bench.task]
    generalize b.handle? (.handle g) = j, b'.handle? (.handle g) = j' at hf
    cases hf with
    | none => exact ⟨h, .answer _⟩
    | some hg => exact ⟨h, .call (.release hg) .outcome⟩
  | clearInterrupt => exact ⟨h, .call .clearInterrupt .outcome⟩
  | within | tryLock | tryLockFor | unlock | mutexState | entryLock | entryUnlock | entryState
  | checkDeadlock => cases hk

theorem Shares.follow (h : Shares π mine b b') (kept : Nat → Prop) (hi : b.system.phase t = .idle)
    (hi' : b'.system.phase t = .idle) {course course' : Course}
    (hc : course.Twin π mine course') (step : Nat) :
    Shares π mine (b.follow t step course) (b'.follow t step course') ∧
      Pairs π mine kept (b.follow t step course) (b'.follow t step course') t ∧
      Echoes step t b (b.follow t step course) b' (b'.follow t step course') := by
  cases hc with
  | answer a =>
    have hnone (b : Bench) : (b.follow t step (.answer a)).job? t = none := by
      show (b.dropJob t).job? t = none
      rw [job?_dropJob, if_pos rfl]
    refine ⟨⟨h.memory, h.now, h.workers, h.slots⟩, fun job hj => ?_,
      ⟨[⟨t, step, a⟩], rfl, rfl, fun e he => ?_⟩, fun _ => hnone b'⟩
    · rw [hnone] at hj
      cases hj
    · rw [List.mem_singleton.mp he]
  | @call c c' p p' hc hp =>
    rw [follow_call hi, follow_call hi']
    obtain ⟨hm, hphase⟩ := hc.begin b.system.now h.memory
    have hm' : (c.begin b.system.now b.memory).1.Twins π (c'.begin b'.system.now b'.memory).1 := by
      rw [h.now]
      exact hm
    refine ⟨⟨hm', h.now, h.workers, h.slots⟩, fun job hj _ => ?_, ⟨[], ?_, ?_, nofun⟩,
      fun hj => ?_⟩
    · have hj : ((t, { step, progress := p }) :: (b.dropJob t).jobs).lookup t = some job := hj
      rw [List.lookup_cons_self] at hj
      cases hj
      refine ⟨{ step, progress := p' }, List.lookup_cons_self, ⟨rfl, hp⟩, ?_⟩
      rw [System.phase_after, System.phase_after, h.now]
      exact hphase
    · exact (List.append_nil _).symm
    · exact (List.append_nil _).symm
    · have hj : ((t, { step, progress := p }) :: (b.dropJob t).jobs).lookup t = none := hj
      rw [List.lookup_cons_self] at hj
      cases hj

/-! ## Turns -/

/-- The worker a deed is for is not at work. -/
def free (b : Bench) (d : Deed) : Bool := d.worker?.all fun worker => (b.job? worker).isNone

theorem refusal?_of_free {worker : Nat} (h : (b.job? worker).isNone) :
    b.refusal? worker = if b.workers ≤ worker then some .noObject else none := by
  unfold refusal?
  rw [Option.isNone_iff_eq_none.mp h]
  rfl

theorem Shares.start (h : Shares π mine b b') {d : Deed} (hd : d.onFactories)
    (hi : ∀ target, d ≠ .command (.interrupt target))
    (hl : d = .command .liveFactories → b'.memory.liveCount = b.memory.liveCount)
    (hs : ∀ s ∈ d.slots, mine s) (hf : b.free d) (hf' : b'.free d) :
    (b'.start d).2.1 = (b.start d).2.1 ∧
      Agree π mine ((b.start d).1, (b.start d).2.2) ((b'.start d).1, (b'.start d).2.2) := by
  cases d with
  | command c =>
    refine ⟨h.workers, h.command hd (fun target he => ?_) (fun he => ?_) hs⟩
    · exact hi target (congrArg _ he)
    · exact hl (congrArg _ he)
  | task worker k =>
    simp only [Bench.start, refusal?_of_free hf, refusal?_of_free hf', h.workers]
    by_cases hw : b.workers ≤ worker
    · simp only [hw, if_true]
      exact ⟨h.workers, h, .answer _⟩
    · simp only [hw, if_false]
      exact ⟨trivial, h.task hd hs⟩
  | unknown worker =>
    simp only [Bench.start, refusal?_of_free hf, refusal?_of_free hf', h.workers]
    exact ⟨h.workers, h, .answer _⟩

theorem turn_deed_eq_some_iff {step : Nat} {d : Deed} : b.turn (.deed step d) = some b₁ ↔
    b.job? (b.start d).2.1 = none ∧
      b₁ = (b.start d).1.follow (b.start d).2.1 step (b.start d).2.2 := by
  show (if (b.job? (b.start d).2.1).isNone then
    some ((b.start d).1.follow (b.start d).2.1 step (b.start d).2.2) else none) = some b₁ ↔ _
  rw [← Option.isNone_iff_eq_none]
  split
  · next h => simp only [h, true_and, Option.some.injEq, eq_comm]
  · next h => simp only [h, false_and, reduceCtorEq]

theorem phase_start (b : Bench) (d : Deed) (t : ThreadId) :
    (b.start d).1.system.phase t = b.system.phase t := by rw [(restocks_start b d).eq]

theorem moves_deed {step : Nat} {d : Deed} (h : b.turn (.deed step d) = some b₁)
    (hi : b.system.phase (b.start d).2.1 = .idle) {L : LockId → Prop} {T : TableId → Prop} :
    Moves L T (· ∈ d.slots) (b.start d).2.1 b b₁ := by
  obtain ⟨-, rfl⟩ := turn_deed_eq_some_iff.mp h
  exact (restocks_start b d).moves.trans (moves_follow ((phase_start ..).trans hi) ..)

theorem step_of_deed {step : Nat} {d : Deed} (h : b.turn (.deed step d) = some b₁)
    (hi : b.system.phase (b.start d).2.1 = .idle) {job : Job}
    (hj : b₁.job? (b.start d).2.1 = some job) : job.step = step := by
  obtain ⟨-, rfl⟩ := turn_deed_eq_some_iff.mp h
  exact step_of_follow ((phase_start ..).trans hi) hj

/-- **A deed on such slots leads mates to mates.** -/
theorem Mates.deed (h : Mates π mine kept b b') {step : Nat} {d : Deed} (hd : d.onFactories)
    (hi : ∀ target, d ≠ .command (.interrupt target))
    (hl : d = .command .liveFactories → b'.memory.liveCount = b.memory.liveCount)
    (hs : ∀ s ∈ d.slots, mine s) (hf : b.free d) (hf' : b'.free d)
    (hj' : b'.job? (b.start d).2.1 = none)
    (hidle : b.system.phase (b.start d).2.1 = .idle)
    (hidle' : b'.system.phase (b.start d).2.1 = .idle) (hb : b.turn (.deed step d) = some b₁) :
    ∃ b₁', b'.turn (.deed step d) = some b₁' ∧ (b'.start d).2.1 = (b.start d).2.1 ∧
      Mates π mine kept b₁ b₁' ∧ Echoes step (b.start d).2.1 b b₁ b' b₁' := by
  obtain ⟨ht, hshares, hcourse⟩ := h.start hd hi hl hs hf hf'
  obtain ⟨-, hb₁⟩ := turn_deed_eq_some_iff.mp hb
  have hb' : b'.turn (.deed step d) =
      some ((b'.start d).1.follow (b'.start d).2.1 step (b'.start d).2.2) :=
    turn_deed_eq_some_iff.mpr ⟨ht ▸ hj', rfl⟩
  refine ⟨_, hb', ht, ?_⟩
  obtain ⟨hs₁, hp, ⟨es, h₁, h₂, hstep⟩, hdone⟩ := hshares.follow kept
    ((phase_start ..).trans hidle) ((phase_start ..).trans hidle') hcourse step
  have hm : Moves (fun _ => True) (fun _ => True) _ _ b b₁ := moves_deed hb hidle
  have hm' : Moves (fun _ => True) (fun _ => True) _ _ b' _ := moves_deed hb' (ht ▸ hidle')
  subst hb₁
  rw [ht] at hm' ⊢
  refine ⟨⟨hs₁, fun u => ?_⟩, ⟨es, h₁.trans (congrArg (· ++ es) (restocks_start ..).endings),
    h₂.trans (congrArg (· ++ es) (restocks_start ..).endings), hstep⟩, hdone⟩
  by_cases hu : u = (b.start d).2.1
  · rw [hu]
    exact hp
  · exact (h.jobs u).congr .refl (hm.jobs u hu) (hm.phases u hu)
      (hm'.jobs u hu) (hm'.phases u hu)

/-! ## Steps -/

/-- **A step of twins leads mates to mates**, and gives the same answer. -/
theorem Mates.take (h : Mates π mine kept b b') {job : Job} (hj : b.job? t = some job)
    (hk : kept job.step) (hg : π.Grows b.memory b'.memory ρ) {st st' : KeyedLocks.Step}
    (hst : st.Twin ρ st') (htells : st.Tells) {L L' : LockId → Prop} {T T' : TableId → Prop}
    {S S' : Slot → Prop} (hm : Moves L T S t b (b.take t st))
    (hm' : Moves L' T' S' t b' (b'.take t st')) :
    Mates ρ mine kept (b.take t st) (b'.take t st') ∧
      Echoes job.step t b (b.take t st) b' (b'.take t st') := by
  obtain ⟨job', hj', hjob, -⟩ := h.jobs t job hj hk
  have hafter (events events' : List (ThreadId × Event)) :
      Shares ρ mine { b with system := b.system.after t st, events }
        { b' with system := b'.system.after t st', events := events' } :=
    ⟨hst.memory, h.now, h.workers, fun s hs => Object.rel_grow (h.slots s hs) hg⟩
  suffices hall : Shares ρ mine (b.take t st) (b'.take t st') ∧
      Pairs ρ mine kept (b.take t st) (b'.take t st') t ∧
      Echoes job.step t b (b.take t st) b' (b'.take t st') by
    refine ⟨⟨hall.1, fun u => ?_⟩, hall.2.2⟩
    by_cases hu : u = t
    · rw [hu]
      exact hall.2.1
    · exact (h.jobs u).congr hg (hm.jobs u hu) (hm.phases u hu) (hm'.jobs u hu) (hm'.phases u hu)
  have hanswers := hst.answers
  by_cases hi : st.phase = .idle
  · have hi' := hst.phase.idle_iff.mp hi
    obtain ⟨out, hans⟩ := htells.answers_of_idle hi
    rw [hans] at hanswers
    obtain ⟨out', hout, hans'⟩ : ∃ out', out.Twin ρ out' ∧ st'.answers = [out'] := by
      generalize st'.answers = outs at hanswers
      cases hanswers with
      | cons hout hnil => cases hnil; exact ⟨_, hout, rfl⟩
    obtain ⟨e₁, e₂, he⟩ := take_of_answer hj hans
    obtain ⟨e₁', e₂', he'⟩ := take_of_answer hj' hans'
    obtain ⟨hshares, hcourse⟩ := (hafter e₁ e₁').resume hout (hjob.progress.grow hg) t
    obtain ⟨hs, hp, ha⟩ := hshares.follow kept (phase_resume hi e₁ out job.progress)
      (phase_resume hi' e₁' out' job'.progress) hcourse job.step
    rw [he, he', hjob.step]
    obtain ⟨⟨es, h₁, h₂, hstep⟩, hdone⟩ := ha
    exact ⟨⟨hs.memory, hs.now, hs.workers, hs.slots⟩, hp,
      ⟨es, h₁.trans (congrArg (· ++ es) (restocks_resume ..).endings),
        h₂.trans (congrArg (· ++ es) (restocks_resume ..).endings), hstep⟩, hdone⟩
  · have hans := htells.answers_eq_nil hi
    rw [hans] at hanswers
    have hans' : st'.answers = [] := by
      generalize st'.answers = outs at hanswers
      cases hanswers
      rfl
    obtain ⟨events, he⟩ := take_of_nil (b := b) (t := t) hans
    obtain ⟨events', he'⟩ := take_of_nil (b := b') (t := t) hans'
    rw [he, he']
    refine ⟨hafter .., fun job₁ hj₁ _ => ?_, ⟨[], ?_, ?_, nofun⟩, fun hj₁ => ?_⟩
    · have hj₁ : b.job? t = some job₁ := hj₁
      rw [hj] at hj₁
      cases hj₁
      refine ⟨job', hj', hjob.grow hg, ?_⟩
      rw [System.phase_after, System.phase_after]
      exact hst.phase
    · exact (List.append_nil _).symm
    · exact (List.append_nil _).symm
    · have hj₁ : b.job? t = none := hj₁
      rw [hj] at hj₁
      cases hj₁

end

end Bench

end Scenario

end KeyedLocks
