import KeyedLocks.Proofs.Stir

/-!
# Sleep and wake-ups

`Poised φ l k` says how matters stand with a lock: a thread has the latch just when it is awake in
the queue, and then another thread has the lock; and nobody sleeps on a free lock unless the one who
freed it is about to send a wake-up. Every action leaves the locks poised (`Poised.stir`). So no
release is lost on a sleeper (`System.owned_of_asleep`), although the lock is free for all before
the wake-up goes out.
-/

namespace KeyedLocks

/-! ## What a thread in a wait relies on -/

theorem Phase.notifies?_of_stage? {p : Phase} {l : LockId} (h : p.stage? l ≠ none) :
    p.notifies? = none := by
  unfold stage? at h
  split at h
  · rfl
  · rfl
  · exact absurd rfl h

open Function (update)

/-- How matters stand with lock `l`, in the state `k`, when `φ` says where each thread is. -/
structure Poised (φ : ThreadId → Phase) (l : LockId) (k : Lock) : Prop where
  /-- A thread in the queue that is awake has the latch, and someone has the lock. -/
  latched : ∀ t, (φ t).stage? l = some .checkFlag ∨ (φ t).stage? l = some .doze →
    k.latch = some t ∧ k.mutex.owner ≠ none
  /-- Only such a thread has the latch. -/
  manned : ∀ t, k.latch = some t → (φ t).stage? l = some .checkFlag ∨ (φ t).stage? l = some .doze
  /-- No thread waits for itself. -/
  foreign : ∀ t, (φ t).stage? l ≠ none → k.mutex.owner ≠ some t
  /-- Whoever freed the lock under a sleeper is about to wake it. -/
  woken : ∀ t, (φ t).stage? l = some .asleep → t ∈ k.sleepers → k.mutex.owner = none →
    ∃ u, (φ u).notifies? = some l

namespace Poised

variable {φ : ThreadId → Phase} {l : LockId} {k k' : Lock} {me t : ThreadId} {p' : Phase}

theorem not_awake (h : Poised φ l k) (hf : k.latch = none) :
    ¬ ((φ t).stage? l = some .checkFlag ∨ (φ t).stage? l = some .doze) := by
  intro hs
  rw [(h.latched t hs).1] at hf
  cases hf

theorem not_awake_of_ne (h : Poised φ l k)
    (hme : (φ me).stage? l = some .checkFlag ∨ (φ me).stage? l = some .doze) (ht : t ≠ me) :
    ¬ ((φ t).stage? l = some .checkFlag ∨ (φ t).stage? l = some .doze) := by
  intro hs
  have hl := (h.latched me hme).1
  rw [(h.latched t hs).1] at hl
  exact ht (Option.some.inj hl)

/-- A wake-up to come is still to come unless the thread that sends it acts. -/
theorem notified_update (hn : ∃ u, (φ u).notifies? = some l) (hme : (φ me).notifies? ≠ some l) :
    ∃ u, (update φ me p' u).notifies? = some l := by
  obtain ⟨u, hu⟩ := hn
  refine ⟨u, ?_⟩
  rw [Function.update_of_ne]
  · exact hu
  · rintro rfl
    exact hme hu

theorem latched_stir (h : Poised φ l k) (hs : Stir me l (φ me) k p' k') (t : ThreadId)
    (ht : (update φ me p' t).stage? l = some .checkFlag ∨
      (update φ me p' t).stage? l = some .doze) : k'.latch = some t ∧ k'.mutex.owner ≠ none := by
  by_cases htm : t = me
  · subst htm
    rw [Function.update_self] at ht
    cases hs with
    | rest ha hp =>
      rw [hp] at ht
      rw [ha.latch, ha.mutex]
      exact h.latched t ht
    | notify _ hp | take _ _ _ hp | release _ _ _ hp | quit _ hp | grab _ _ _ _ hp | sleep _ hp =>
      rw [hp] at ht
      exact absurd ht (by simp)
    | enter _ ho => exact ⟨rfl, by rw [Mutex.enqueue, ho]; exact Option.some_ne_none _⟩
    | drowse hp => exact h.latched t (.inl hp)
    | rise _ _ ho => exact ⟨rfl, by rw [ho]; exact Option.some_ne_none _⟩
  · rw [Function.update_of_ne htm] at ht
    cases hs with
    | rest ha =>
      rw [ha.latch, ha.mutex]
      exact h.latched t ht
    | notify | drowse => exact h.latched t ht
    | take hf | release hf | enter hf | rise hf | grab hf => exact absurd ht (h.not_awake hf)
    | quit hp => exact absurd ht (h.not_awake_of_ne hp htm)
    | sleep hp => exact absurd ht (h.not_awake_of_ne (.inr hp) htm)

theorem manned_stir (h : Poised φ l k) (hs : Stir me l (φ me) k p' k') (t : ThreadId)
    (ht : k'.latch = some t) : (update φ me p' t).stage? l = some .checkFlag ∨
      (update φ me p' t).stage? l = some .doze := by
  by_cases htm : t = me
  · subst htm
    rw [Function.update_self]
    cases hs with
    | rest ha hp =>
      rw [ha.latch] at ht
      rw [hp]
      exact h.manned t ht
    | notify hp => exact absurd (h.manned t ht) (by rw [hp]; simp)
    | take hf | release hf | grab hf => exact absurd (hf.symm.trans ht) nofun
    | enter _ _ _ _ hp | rise _ _ _ _ _ hp => exact .inl hp
    | drowse _ hp => exact .inr hp
    | quit | sleep => cases ht
  · rw [Function.update_of_ne htm]
    cases hs with
    | rest ha =>
      rw [ha.latch] at ht
      exact h.manned t ht
    | notify | drowse => exact h.manned t ht
    | take hf | release hf | grab hf => exact absurd (hf.symm.trans ht) nofun
    | enter | rise => exact absurd (Option.some.inj ht).symm htm
    | quit | sleep => cases ht

theorem foreign_stir (h : Poised φ l k) (hs : Stir me l (φ me) k p' k') (t : ThreadId)
    (ht : (update φ me p' t).stage? l ≠ none) : k'.mutex.owner ≠ some t := by
  by_cases htm : t = me
  · subst htm
    rw [Function.update_self] at ht
    cases hs with
    | rest ha hp =>
      rw [hp] at ht
      rw [ha.mutex]
      exact h.foreign t ht
    | notify _ hp | take _ _ _ hp | release _ _ _ hp | quit _ hp | grab _ _ _ _ hp =>
      exact absurd hp ht
    | enter _ ho hne | rise _ _ ho hne =>
      intro hc
      exact hne (Option.some.inj (ho.symm.trans hc))
    | drowse hp => exact h.foreign t (by rw [hp]; exact nofun)
    | sleep hp => exact h.foreign t (by rw [hp]; exact nofun)
  · rw [Function.update_of_ne htm] at ht
    have hold := h.foreign t ht
    cases hs with
    | rest ha => rw [ha.mutex]; exact hold
    | notify | enter | drowse | quit | sleep | rise => exact hold
    | take _ hx => exact fun hc => htm (Mutex.eq_of_owner_of_take? hx hc)
    | release _ hx =>
      rcases Mutex.owner_of_release? hx with ho | ho
      · show _ ≠ _
        rw [ho]
        exact nofun
      · show _ ≠ _
        rw [ho]
        exact hold
    | grab _ _ hx => exact fun hc => htm (Mutex.eq_of_owner_of_take? hx hc)

theorem woken_stir (h : Poised φ l k) (hs : Stir me l (φ me) k p' k') (t : ThreadId)
    (ht : (update φ me p' t).stage? l = some .asleep) (hsl : t ∈ k'.sleepers)
    (ho : k'.mutex.owner = none) : ∃ u, (update φ me p' u).notifies? = some l := by
  by_cases htm : t = me
  · subst htm
    rw [Function.update_self] at ht
    cases hs with
    | rest ha hp hn =>
      rw [hp] at ht
      rw [ha.sleepers] at hsl
      rw [ha.mutex] at ho
      exact notified_update (h.woken t ht hsl ho) hn
    | notify _ hp | take _ _ _ hp | release _ _ _ hp | enter _ _ _ _ hp | drowse _ hp
    | quit _ hp | rise _ _ _ _ _ hp | grab _ _ _ _ hp =>
      rw [hp] at ht
      cases ht
    | sleep hp => exact absurd ho (h.latched t (.inr hp)).2
  · rw [Function.update_of_ne htm] at ht
    cases hs with
    | rest ha _ hn =>
      rw [ha.sleepers] at hsl
      rw [ha.mutex] at ho
      exact notified_update (h.woken t ht hsl ho) hn
    | notify => cases hsl
    | take _ hx =>
      have hown : _ = some me := Mutex.owner_of_take? hx
      rw [hown] at ho
      cases ho
    | release _ _ _ _ hw => exact ⟨me, by rw [Function.update_self]; exact hw ho⟩
    | enter _ hown =>
      rw [Mutex.enqueue, hown] at ho
      cases ho
    | drowse hp => exact absurd ho (h.latched me (.inl hp)).2
    | quit hp => exact absurd ho (h.latched me hp).2
    | sleep hp => exact absurd ho (h.latched me (.inr hp)).2
    | rise _ _ hown => rw [hown] at ho; cases ho
    | grab _ _ hx =>
      have hown : _ = some me := Mutex.owner_of_take? hx
      rw [Mutex.leave, hown] at ho
      cases ho

/-- **Every action leaves the locks poised.** -/
theorem stir (h : Poised φ l k) (hs : Stir me l (φ me) k p' k') :
    Poised (update φ me p') l k' :=
  ⟨h.latched_stir hs, h.manned_stir hs, h.foreign_stir hs, h.woken_stir hs⟩

theorem rouse (h : Poised φ l k) (t : ThreadId) :
    Poised φ l { k with sleepers := k.sleepers.filter (· ≠ t) } :=
  ⟨h.latched, h.manned, h.foreign, fun u hu hs => h.woken u hu (List.mem_filter.mp hs).1⟩

end Poised

/-- If only those who sleep on a lock are listed as sleepers, this is so after the action. -/
theorem Stir.sleepers {me : ThreadId} {l : LockId} {φ : ThreadId → Phase} {k k' : Lock} {p' : Phase}
    (hs : Stir me l (φ me) k p' k') (h : ∀ t ∈ k.sleepers, (φ t).stage? l = some .asleep) :
    ∀ t ∈ k'.sleepers, (update φ me p' t).stage? l = some .asleep := by
  have hkeep (hme : me ∈ k.sleepers → p'.stage? l = some .asleep) :
      ∀ t ∈ k.sleepers, (update φ me p' t).stage? l = some .asleep := by
    intro t ht
    by_cases hne : t = me
    · subst hne
      rw [Function.update_self]
      exact hme ht
    · rw [Function.update_of_ne hne]
      exact h t ht
  have hout {w : Option WaitStage} (hw : (φ me).stage? l = w) (hne : w ≠ some .asleep) :
      ∀ t ∈ k.sleepers, (update φ me p' t).stage? l = some .asleep :=
    hkeep fun hme => absurd (hw.symm.trans (h me hme)) hne
  cases hs with
  | rest hk hp =>
    rw [hk.sleepers]
    exact hkeep fun hme => hp.trans (h me hme)
  | notify => exact nofun
  | take _ _ hp | release _ _ hp | enter _ _ _ hp => exact hout hp nofun
  | drowse hp => exact hout hp (by decide)
  | quit hp => rcases hp with hp | hp <;> exact hout hp (by decide)
  | sleep hp hp' =>
    intro t ht
    rcases List.mem_append.mp ht with ht | ht
    · exact hout hp (by decide) t ht
    · rw [List.mem_singleton.mp ht, Function.update_self]
      exact hp'
  | rise _ hme | grab _ hme => exact hkeep fun h => absurd h hme

namespace System

variable {s : System} {t u : ThreadId} {l : LockId}

theorem stir_of_call (hi : s.phase t = .idle) (c : Call) (l : LockId) :
    Stir t l (s.phase t) (s.memory.lock l) (c.begin s.now s.memory).2
      ((c.begin s.now s.memory).1.lock l) := by
  have hstage : (c.begin s.now s.memory).2.stage? l = (s.phase t).stage? l := by
    rw [hi]
    cases c <;> rfl
  have hk : (c.begin s.now s.memory).1.lock l = s.memory.lock l := by
    rw [Memory.lock, c.begin_locks]
    rfl
  rw [hk]
  exact .rest (.refl _) hstage (by rw [hi]; exact (Option.some_ne_none _).symm)

theorem Reached.poised (h : s.Reached) (l : LockId) : Poised s.phase l (s.memory.lock l) := by
  refine h.induct (p := fun s => Poised s.phase l (s.memory.lock l))
    ⟨fun _ => nofun, nofun, fun _ hs => absurd rfl hs, fun _ => nofun⟩ ?_
  intro s s' m _ hl hm
  cases hm with
  | @call t c hi =>
    rw [phase_after_eq]
    exact hl.stir (stir_of_call hi c l)
  | @act t st hst =>
    rw [phase_after_eq]
    exact hl.stir (Phase.next_stirs hst l)
  | @rouse t j =>
    show Poised s.phase l ((s.memory.rouse j t).lock l)
    rw [Memory.rouse, Memory.lock_modifyLock]
    split
    · next hj => subst hj; exact hl.rouse t
    · exact hl
  | tick => exact hl

/-- Only who sleeps on a lock is listed as a sleeper there. -/
theorem Reached.stage?_of_sleeper (h : s.Reached) (l : LockId) :
    ∀ t ∈ (s.memory.lock l).sleepers, (s.phase t).stage? l = some .asleep := by
  refine h.induct (p := fun s => ∀ t ∈ (s.memory.lock l).sleepers,
    (s.phase t).stage? l = some .asleep) nofun ?_
  intro s s' m _ hl hm
  cases hm with
  | @call t c hi =>
    rw [phase_after_eq]
    exact (stir_of_call hi c l).sleepers hl
  | @act t st hst =>
    rw [phase_after_eq]
    exact (Phase.next_stirs hst l).sleepers hl
  | @rouse t j =>
    intro u hu
    refine hl u ?_
    have hlock : (s.memory.rouse j t).lock l = if l = j then
        { s.memory.lock j with sleepers := (s.memory.lock j).sleepers.filter (· ≠ t) }
        else s.memory.lock l := Memory.lock_modifyLock ..
    dsimp only at hu
    rw [hlock] at hu
    split at hu
    · next hj => exact hj ▸ (List.mem_filter.mp hu).1
    · exact hu
  | tick => exact hl

/-! ## Releases and sleepers -/

/-- Every thread is idle, or asleep with no wake-up on its way. -/
def AtRest (s : System) : Prop := ∀ t, s.phase t = .idle ∨ (s.asleepOn t).isSome

/-- Threads that never did anything are idle. -/
instance (s : System) : Decidable s.AtRest :=
  decidable_of_iff (∀ t < s.phases.fresh, s.phase t = .idle ∨ (s.asleepOn t).isSome) <| by
    constructor
    · intro h t
      rcases Nat.lt_or_ge t s.phases.fresh with ht | ht
      · exact h t ht
      · exact .inl (Arena.get_of_fresh_le ht)
    · exact fun h t _ => h t

theorem stage?_of_asleepOn (h : s.asleepOn t = some l) :
    (s.phase t).stage? l = some .asleep ∧ t ∈ (s.memory.lock l).sleepers := by
  obtain ⟨e, d, hp, rfl, hs⟩ := asleepOn_eq_some_iff.mp h
  rw [hp]
  exact ⟨Errand.stage?_waiting (by decide), hs⟩

theorem AtRest.notifies? (h : s.AtRest) (t : ThreadId) : (s.phase t).notifies? = none := by
  rcases h t with hi | hs
  · rw [hi]
    rfl
  · obtain ⟨l, hl⟩ := Option.isSome_iff_exists.mp hs
    apply Phase.notifies?_of_stage? (l := l)
    rw [(stage?_of_asleepOn hl).1]
    exact nofun

theorem AtRest.asleepOn (h : s.AtRest) (hs : s.Reached)
    (ht : t ∈ (s.memory.lock l).mutex.waiters) : s.asleepOn t = some l := by
  obtain ⟨e, d, st, hp, rfl⟩ := Phase.waiting_of_queue? (hs.queues.mem_iff.mp ht)
  rcases h t with hi | hsome
  · have hp : s.phase t = .waiting e d st := hp
    rw [hi] at hp
    cases hp
  · obtain ⟨l', hl'⟩ := Option.isSome_iff_exists.mp hsome
    obtain ⟨e', d', hp', rfl, -⟩ := asleepOn_eq_some_iff.mp hl'
    have hp : s.phase t = .waiting e d st := hp
    rw [hp'] at hp
    cases hp
    exact hl'

/-- The next action of a thread that has freed a lock is to wake all sleepers. -/
theorem exists_act_of_notifies? (h : (s.phase u).notifies? = some l) :
    ∃ s' notes, s.act u = some (s', notes) ∧ (s'.memory.lock l).sleepers = [] := by
  have hnext : ∃ st, (s.phase u).next u s.now s.memory = some st ∧
      st.memory.lock = (s.memory.notifyAll l).lock := by
    unfold Phase.notifies? at h
    split at h <;> cases h
    all_goals
      next hp =>
        rw [hp]
        exact ⟨_, rfl, rfl⟩
  obtain ⟨st, hst, hl⟩ := hnext
  refine ⟨_, _, act_eq_some_iff.mpr ⟨st, hst, rfl, rfl⟩, ?_⟩
  show (st.memory.lock l).sleepers = []
  rw [hl, Memory.notifyAll, Memory.lock_modifyLock, if_pos rfl]

/-- **No release is lost on a sleeper.** A thread sleeps on a free lock only while the one who freed
it has yet to wake it, which is what that one does next. So when all threads are idle or asleep, a
lock with a queue has an owner, who is not in the queue. -/
theorem owned_of_asleep (hs : s.Reached) (l : LockId) :
    (∀ t, s.asleepOn t = some l → (s.memory.lock l).mutex.owner = none →
      ∃ u, (s.phase u).notifies? = some l ∧
        ∃ s' notes, s.act u = some (s', notes) ∧ (s'.memory.lock l).sleepers = []) ∧
    (s.AtRest → (s.memory.lock l).mutex.waiters ≠ [] →
      ∃ o, (s.memory.lock l).mutex.owner = some o ∧ o ∉ (s.memory.lock l).mutex.waiters) := by
  have hl := hs.poised l
  constructor
  · intro t ht ho
    obtain ⟨hst, hsl⟩ := stage?_of_asleepOn ht
    obtain ⟨u, hu⟩ := hl.woken t hst hsl ho
    exact ⟨u, hu, exists_act_of_notifies? hu⟩
  · intro hr hw
    obtain ⟨t, ht⟩ := List.exists_mem_of_ne_nil _ hw
    obtain ⟨hst, hsl⟩ := stage?_of_asleepOn (hr.asleepOn hs ht)
    rcases ho : (s.memory.lock l).mutex.owner with _ | o
    · obtain ⟨u, hu⟩ := hl.woken t hst hsl ho
      rw [hr.notifies? u] at hu
      cases hu
    · refine ⟨o, rfl, fun hmem => ?_⟩
      obtain ⟨hso, -⟩ := stage?_of_asleepOn (hr.asleepOn hs hmem)
      exact hl.foreign o (by rw [hso]; exact nofun) ho

/-- Thread 1 has a lock. Thread 2 sleeps until it gets it, and was woken once for no reason. -/
def queued : List Move := List.flatten
  [[.call 0 (.act (.makeLock "")), .act 0, .call 1 (.act (.tryLock 0)), .act 1,
      .call 2 (.lockFor 0 .longest)], List.replicate 3 (.act 2), [.rouse 2],
    List.replicate 3 (.act 2)]

/-- In `freed`, thread 1 has given the lock back and has not woken thread 2. -/
def freed : List Move := queued ++ [.call 1 (.unlock 0), .act 1]

theorem owned_of_asleep_freed :
    (∃ s ns, run {} freed = some (s, ns) ∧ s.asleepOn 2 = some 0 ∧
      (s.memory.lock 0).mutex.owner = none ∧ ∃ u, (s.phase u).notifies? = some 0 ∧
        ∃ s' notes, s.act u = some (s', notes) ∧ (s'.memory.lock 0).sleepers = []) ∧
    ∃ s ns, run {} queued = some (s, ns) ∧ s.AtRest ∧ (s.memory.lock 0).mutex.waiters ≠ [] ∧
      ∃ o, (s.memory.lock 0).mutex.owner = some o ∧ o ∉ (s.memory.lock 0).mutex.waiters := by
  constructor
  · have hx : ∃ s ns, run {} freed = some (s, ns) ∧ s.Reached ∧
        s.asleepOn 2 = some 0 ∧ (s.memory.lock 0).mutex.owner = none :=
      Reached.exists_of_run (by decide +kernel)
    obtain ⟨s, ns, hr, hs, ha, ho⟩ := hx
    exact ⟨s, ns, hr, ha, ho, (owned_of_asleep hs 0).1 2 ha ho⟩
  · have hx : ∃ s ns, run {} queued = some (s, ns) ∧ s.Reached ∧
        s.AtRest ∧ (s.memory.lock 0).mutex.waiters ≠ [] :=
      Reached.exists_of_run (by decide +kernel)
    obtain ⟨s, ns, hr, hs, ha, hw⟩ := hx
    exact ⟨s, ns, hr, ha, hw, (owned_of_asleep hs 0).2 ha hw⟩

end System

end KeyedLocks
