import KeyedLocks.Proofs.QueueLimit
import KeyedLocks.Proofs.Sleep

/-!
# Who waits where

The queue of a lock tells who waits for it (`System.Queued`): each thread in the waiting part of a
wait once, nobody else, and never the owner. A move changes one queue at most
(`Turn.rearranges`): the thread that acts joins it at the end, or leaves it, and then the last one
takes its place and all others keep theirs (`Vacates`).
-/

namespace KeyedLocks

/-! ## Leaving a queue -/

/-- What is left of a queue when the thread at one place goes: the last one is there now, and
everyone else is where it was. -/
def Vacates (ws : List ThreadId) (t : ThreadId) (ws' : List ThreadId) : Prop :=
  ∃ i, ws[i]? = some t ∧ ws'.length + 1 = ws.length ∧
    ∀ j < ws'.length, ws'[j]? = if j = i then ws.getLast? else ws[j]?

theorem vacates_leaveQueue {ws : List ThreadId} {t : ThreadId} (h : t ∈ ws) :
    Vacates ws t (leaveQueue ws t) := by
  have hlen : (leaveQueue ws t).length + 1 = ws.length := length_leaveQueue h
  obtain ⟨last, hlast⟩ : ∃ last, ws.getLast? = some last :=
    ⟨_, List.getLast?_eq_some_getLast (List.ne_nil_of_mem h)⟩
  rcases hi : ws.idxOf? t with _ | i
  · exact absurd h (List.idxOf?_eq_none_iff.mp hi)
  obtain ⟨hlt, hit, -⟩ := List.idxOf?_eq_some_iff.mp hi
  have hq : leaveQueue ws t = (ws.set i last).dropLast := by
    unfold leaveQueue
    rw [hi, hlast]
  refine ⟨i, List.getElem?_eq_some_iff.mpr ⟨hlt, hit⟩, hlen, fun j hj => ?_⟩
  have hjlt : j < (ws.set i last).length - 1 := by
    rw [List.length_set]
    omega
  rw [hq, List.getElem?_dropLast, if_pos hjlt, List.getElem?_set, hlast]
  by_cases hji : j = i
  · subst hji
    rw [if_pos rfl, if_pos hlt, if_pos rfl]
  · rw [if_neg (Ne.symm hji), if_neg hji]

/-- In a turn one queue changes at most. -/
theorem Turn.rearranges {me : ThreadId} {X X' : LockId → Mutex} {p p' : Phase}
    (h : Turn me X p X' p') : (∀ l, (X' l).waiters = (X l).waiters) ∨
      ∃ l, (∀ j ≠ l, (X' j).waiters = (X j).waiters) ∧
        (p.queue? = none ∧ (X' l).waiters = (X l).waiters ++ [me] ∨
          p.queue? = some l ∧ (X' l).waiters = leaveQueue (X l).waiters me) := by
  by_cases hall : ∀ l, (X' l).waiters = (X l).waiters
  · exact .inl hall
  obtain ⟨l, hl⟩ := not_forall.mp hall
  refine .inr ⟨l, fun j hj => ?_, ?_⟩
  -- What the phase says of the queue that changes, it says of no other.
  · rcases h.waiters l with ⟨e, d, rfl, he, -⟩ | ⟨hp, -⟩ | ⟨hsame, -⟩
    · rcases h.waiters j with ⟨e', d', hp', he', -⟩ | ⟨hp', -⟩ | ⟨hj', -⟩
      · cases hp'
        exact absurd (he'.symm.trans he) hj
      · cases hp'
      · exact hj'
    · rcases h.waiters j with ⟨e', d', rfl, -⟩ | ⟨hp', -⟩ | ⟨hj', -⟩
      · cases hp
      · exact absurd (Option.some.inj (hp'.symm.trans hp)) hj
      · exact hj'
    · exact absurd hsame hl
  · rcases h.waiters l with ⟨e, d, rfl, -, hw⟩ | ⟨hp, hw⟩ | ⟨hsame, -⟩
    · exact .inl ⟨rfl, hw⟩
    · exact .inr ⟨hp, hw⟩
    · exact absurd hsame hl

namespace System

variable {s s' : System} {t : ThreadId} {l : LockId} {m : Move}

/-- The threads in the queue of a lock. -/
def queue (s : System) (l : LockId) : List ThreadId := (s.memory.lock l).mutex.waiters

/-- The thread is in the waiting part of a wait for the lock: it has joined the queue, and the wait
is not over. -/
def WaitsFor (s : System) (t : ThreadId) (l : LockId) : Prop :=
  ∃ e d w, s.phase t = .waiting e d w ∧ w ≠ .enter ∧ e.lock = l

theorem queue?_eq_some_iff : (s.phase t).queue? = some l ↔ s.WaitsFor t l := by
  constructor
  · intro h
    obtain ⟨e, d, w, hp, he⟩ := Phase.waiting_of_queue? h
    refine ⟨e, d, w, hp, ?_, he⟩
    rintro rfl
    rw [hp] at h
    cases h
  · rintro ⟨e, d, w, hp, hw, rfl⟩
    rw [hp]
    exact Phase.queue?_waiting hw

theorem Reached.owner_ne (hs : s.Reached) (h : s.WaitsFor t l) :
    (s.memory.lock l).mutex.owner ≠ some t := by
  obtain ⟨e, d, w, hp, hw, rfl⟩ := h
  apply (hs.poised e.lock).foreign
  rw [hp, Errand.stage?_waiting hw]
  exact Option.some_ne_none w

/-- What the queues of the locks say about the threads. -/
structure Queued (s : System) : Prop where
  nodup : ∀ l, (s.queue l).Nodup
  mem_iff : ∀ {t l}, t ∈ s.queue l ↔ s.WaitsFor t l
  owner : ∀ {t l}, (s.memory.lock l).mutex.owner = some t → t ∉ s.queue l
  unique : ∀ {t l l'}, t ∈ s.queue l → t ∈ s.queue l' → l = l'

/-- What a move may do to the queues: all others stay when a thread joins or leaves one, which it
does by an action of its own. -/
def Rearranged (s : System) (m : Move) (s' : System) : Prop :=
  (∀ l, s'.queue l = s.queue l) ∨
    ∃ t l, m = .act t ∧ (∀ j ≠ l, s'.queue j = s.queue j) ∧
      (t ∉ s.queue l ∧ s'.queue l = s.queue l ++ [t] ∨ Vacates (s.queue l) t (s'.queue l))

theorem Reached.queued (hs : s.Reached) : s.Queued where
  nodup := hs.queues.nodup
  mem_iff := hs.queues.mem_iff.trans queue?_eq_some_iff
  owner ho ht :=
    hs.owner_ne (queue?_eq_some_iff.mp (hs.queues.mem_iff.mp ht)) ho
  unique ht ht' :=
    Option.some.inj ((hs.queues.mem_iff.mp ht).symm.trans (hs.queues.mem_iff.mp ht'))

theorem Moved.rearranged (hm : s.Moved m s') (hs : s.Reached) : s.Rearranged m s' := by
  cases hm with
  | @call t c =>
    exact .inl fun l => congrArg (fun X => (X l).waiters) (c.begin_mutexes s.now s.memory)
  | @act t st hst =>
    rcases (Phase.next_turns hst).rearranges with hall | ⟨l, hother, hl⟩
    · exact .inl hall
    refine .inr ⟨t, l, rfl, hother, ?_⟩
    rcases hl with ⟨hp, hw⟩ | ⟨hp, hw⟩
    · refine .inl ⟨fun ht => ?_, hw⟩
      rw [hs.queues.mem_iff.mp ht] at hp
      cases hp
    · have hleft : Vacates (s.queue l) t (leaveQueue (s.queue l) t) :=
        vacates_leaveQueue (hs.queues.mem_iff.mpr hp)
      rw [← show (s.after t st).queue l = leaveQueue (s.queue l) t from hw] at hleft
      exact .inr hleft
  | rouse => exact .inl fun l => congrArg (fun X => (X l).waiters) Memory.mutexes_rouse
  | tick => exact .inl fun _ => rfl

/-- **The queues are the threads that wait.** At all times, whatever the threads do, each queue
lists the threads that wait for its lock, every one of them once and not the owner, and no thread is
in two of them. A thread joins at the end, and one that leaves takes out nobody but itself. -/
theorem queues_exact (hs : s.Reached) :
    s.Queued ∧ ∀ m s' ns, s.move m = some (s', ns) → s.Rearranged m s' ∧ s'.Queued :=
  ⟨hs.queued, fun _ _ _ hm => ⟨(moved hm).rearranged hs, (hs.move hm).queued⟩⟩

/-- Thread 1 has a lock, and threads 2, 3 and 4 wait for it. Thread 2 is awake, with its flag up. -/
def leaving : List Move := List.flatten
  [[.call 0 (.act (.makeLock "")), .act 0, .call 1 (.act (.tryLock 0)), .act 1,
      .call 2 (.lockFor 0 .longest)], List.replicate 3 (.act 2), [.call 3 (.lockFor 0 .longest)],
    List.replicate 3 (.act 3), [.call 4 (.lockFor 0 .longest)], List.replicate 3 (.act 4),
    [.call 0 (.interrupt 2), .act 0, .rouse 2, .act 2]]

/-- Thread 4 takes the place of thread 2. -/
theorem queues_exact_leaving : ∃ s ns s' ns', run {} leaving = some (s, ns) ∧
    s.move (.act 2) = some (s', ns') ∧ s.Queued ∧ s.queue 0 = [2, 3, 4] ∧
    s.Rearranged (.act 2) s' ∧ s'.Queued ∧ s'.queue 0 = [4, 3] := by
  have hx : ∃ s ns, run {} leaving = some (s, ns) ∧ s.Reached ∧ s.queue 0 = [2, 3, 4] ∧
      ((s.move (.act 2)).any fun r => r.1.queue 0 = [4, 3]) = true :=
    Reached.exists_of_run (by decide +kernel)
  obtain ⟨s, ns, hr, hs, hq, hany⟩ := hx
  obtain ⟨⟨s', ns'⟩, hm, hq'⟩ := (Option.any_eq_true _ _).mp hany
  obtain ⟨hqueued, hmoves⟩ := queues_exact hs
  obtain ⟨hre, hqueued'⟩ := hmoves _ _ _ hm
  exact ⟨s, ns, s', ns', hr, hm, hqueued, hq, hre, hqueued', of_decide_eq_true hq'⟩

end System

end KeyedLocks
