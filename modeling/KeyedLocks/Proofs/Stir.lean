import KeyedLocks.Proofs.Runs

/-!
# What actions do to who is at work on a lock

`Stir me l p k p' k'` lists what an action of `me` from phase `p` to phase `p'` can do to the
mutex, the latch and the sleepers of one lock. `Phase.next_stirs` says that every action stirs every
lock so: what follows about latches, sleepers and wake-ups is proved about `Stir`, lock by lock.
-/

namespace KeyedLocks

/-- Where a thread in the queue of lock `l` stands in its wait. -/
def Phase.stage? (l : LockId) : Phase → Option WaitStage
  | .waiting _ _ .enter => none
  | .waiting e _ s => if e.lock = l then some s else none
  | _ => none

/-- The lock a thread has freed and is about to send wake-ups for. -/
def Phase.notifies? : Phase → Option LockId
  | .notifyBackOut a => some a.lock
  | .releasing h _ .notify | .releasing h _ .notifyProbe => some h.lock
  | .notifying l => some l
  | _ => none

/-- The two locks differ in their marks at most, not in who is at work on them. -/
structure Lock.Alike (k k' : Lock) : Prop where
  mutex : k'.mutex = k.mutex
  latch : k'.latch = k.latch
  sleepers : k'.sleepers = k.sleepers

theorem Lock.Alike.refl (k : Lock) : k.Alike k := ⟨rfl, rfl, rfl⟩

/-- What an action of `me` from `p` to `p'` can do to lock `l`. -/
inductive Stir (me : ThreadId) (l : LockId) : Phase → Lock → Phase → Lock → Prop where
  | rest {p p' : Phase} {k k' : Lock} : k.Alike k' → p'.stage? l = p.stage? l →
      p.notifies? ≠ some l → Stir me l p k p' k'
  | notify {p p' : Phase} {k : Lock} : p.stage? l = none → p'.stage? l = none →
      Stir me l p k p' { k with sleepers := [] }
  | take {p p' : Phase} {k : Lock} {x : Mutex} : k.latch = none → k.mutex.take? me = some x →
      p.stage? l = none → p'.stage? l = none → Stir me l p k p' { k with mutex := x }
  | release {p p' : Phase} {k : Lock} {x : Mutex} : k.latch = none →
      k.mutex.release? me = some x → p.stage? l = none → p'.stage? l = none →
      (x.owner = none → p'.notifies? = some l) → Stir me l p k p' { k with mutex := x }
  | enter {p p' : Phase} {k : Lock} {o : ThreadId} : k.latch = none → k.mutex.owner = some o →
      o ≠ me → p.stage? l = none → p'.stage? l = some .checkFlag →
      Stir me l p k p' { k with mutex := k.mutex.enqueue me, latch := some me }
  | drowse {p p' : Phase} {k : Lock} : p.stage? l = some .checkFlag → p'.stage? l = some .doze →
      Stir me l p k p' k
  | quit {p p' : Phase} {k : Lock} : p.stage? l = some .checkFlag ∨ p.stage? l = some .doze →
      p'.stage? l = none → Stir me l p k p' { k with mutex := k.mutex.leave me, latch := none }
  | sleep {p p' : Phase} {k : Lock} : p.stage? l = some .doze → p'.stage? l = some .asleep →
      Stir me l p k p' { k with sleepers := k.sleepers ++ [me], latch := none }
  | rise {p p' : Phase} {k : Lock} {o : ThreadId} : k.latch = none → me ∉ k.sleepers →
      k.mutex.owner = some o → o ≠ me → p.stage? l = some .asleep →
      p'.stage? l = some .checkFlag → Stir me l p k p' { k with latch := some me }
  | grab {p p' : Phase} {k : Lock} {x : Mutex} : k.latch = none → me ∉ k.sleepers →
      k.mutex.take? me = some x → p.stage? l = some .asleep → p'.stage? l = none →
      Stir me l p k p' { k with mutex := x.leave me }

/-- The action that leads `me` from phase `p` to what `st` says stirs all locks as it may. -/
def Stirs (me : ThreadId) (m : Memory) (p : Phase) (st : Step) : Prop :=
  ∀ l, Stir me l p (m.lock l) st.phase (st.memory.lock l)

theorem Phase.stage?_of_queue? {p : Phase} (h : p.queue? = none) (l : LockId) :
    p.stage? l = none := by
  unfold stage?
  split
  · rfl
  · next e d s hs =>
    unfold queue? at h
    split at h
    · next he => cases he; exact absurd rfl hs
    · cases h
    · next hw => exact absurd rfl (hw e d s)
  · rfl

theorem Phase.waiting_of_stage? {p : Phase} {l : LockId} {s : WaitStage}
    (h : p.stage? l = some s) : ∃ e d, p = .waiting e d s ∧ e.lock = l := by
  unfold stage? at h
  split at h
  · cases h
  · next e d s' _ =>
    split at h
    · next hl => cases h; exact ⟨e, d, rfl, hl⟩
    · cases h
  · cases h

section
variable {me : ThreadId} {now : Nat} {m : Memory} {p : Phase} {st : Step} {l : LockId}

theorem stirs_of_alike (hm : ∀ l, (m.lock l).Alike (st.memory.lock l)) (hp : p.queue? = none)
    (hq : st.phase.queue? = none) (hn : p.notifies? = none) : Stirs me m p st := by
  intro l
  have hs : st.phase.stage? l = p.stage? l := by
    rw [Phase.stage?_of_queue? hp, Phase.stage?_of_queue? hq]
  refine .rest (hm l) hs ?_
  rw [hn]
  exact nofun

theorem stirs_of_quiet (hm : st.memory.locks = m.locks) (hp : p.queue? = none)
    (hq : st.phase.queue? = none) (hn : p.notifies? = none) : Stirs me m p st :=
  stirs_of_alike (fun _ => Memory.lock_of_locks hm ▸ .refl _) hp hq hn

/-- An action at one lock leaves the others alone. -/
theorem stirs_of_modify {f : Lock → Lock} (hm : st.memory.locks = (m.modifyLock l f).locks)
    (hl : Stir me l p (m.lock l) st.phase (f (m.lock l)))
    (ho : ∀ j, j ≠ l → st.phase.stage? j = p.stage? j ∧ p.notifies? ≠ some j) :
    Stirs me m p st := by
  intro j
  rw [Memory.lock_of_locks hm, Memory.lock_modifyLock]
  split
  · next hj => rw [hj]; exact hl
  · next hj => exact .rest (.refl _) (ho j hj).1 (ho j hj).2

theorem stirs_of_outside {f : Lock → Lock} (hm : st.memory.locks = (m.modifyLock l f).locks)
    (hp : p.queue? = none) (hq : st.phase.queue? = none)
    (hn : p.notifies? = none ∨ p.notifies? = some l)
    (hl : p.stage? l = none → st.phase.stage? l = none →
      Stir me l p (m.lock l) st.phase (f (m.lock l))) : Stirs me m p st := by
  have hp := Phase.stage?_of_queue? hp
  have hq := Phase.stage?_of_queue? hq
  refine stirs_of_modify hm (hl (hp l) (hq l)) ?_
  intro j hj
  constructor
  · rw [hp, hq]
  · rcases hn with hn | hn <;> rw [hn]
    · exact nofun
    · exact fun h => hj (Option.some.inj h).symm

theorem stirs_of_take {x : Mutex} (hf : (m.lock l).latch = none)
    (hx : (m.lock l).mutex.take? me = some x) (hm : st.memory.locks = (m.setMutex l x).locks)
    (hp : p.queue? = none) (hq : st.phase.queue? = none) (hn : p.notifies? = none) :
    Stirs me m p st :=
  stirs_of_outside hm hp hq (.inl hn) fun hs hs' => .take hf hx hs hs'

theorem stirs_of_release {x : Mutex} (hf : (m.lock l).latch = none)
    (hx : (m.lock l).mutex.release? me = some x)
    (hm : st.memory.locks = (m.setMutex l x).locks) (hp : p.queue? = none)
    (hq : st.phase.queue? = none) (hn : p.notifies? = none)
    (hw : x.owner = none → st.phase.notifies? = some l) : Stirs me m p st :=
  stirs_of_outside hm hp hq (.inl hn) fun hs hs' => .release hf hx hs hs' hw

theorem stirs_of_notify (hm : st.memory.locks = (m.notifyAll l).locks) (hp : p.queue? = none)
    (hq : st.phase.queue? = none) (hn : p.notifies? = none ∨ p.notifies? = some l) :
    Stirs me m p st :=
  stirs_of_outside hm hp hq hn fun hs hs' => .notify hs hs'

theorem Mutex.owner_of_isLocked {x : Mutex} (h : x.isLocked) : x.owner ≠ none := by
  intro ho
  rw [isLocked, ho] at h
  cases h

theorem Memory.alike_addLock (m : Memory) (identifier : String) (l : LockId) :
    (m.lock l).Alike ((m.addLock identifier).lock l) := by
  rw [lock_addLock]
  split
  · next h =>
    have hd : m.lock l = default := Arena.get_of_fresh_le (Nat.le_of_eq h.symm)
    rw [hd]
    exact ⟨rfl, rfl, rfl⟩
  · exact .refl _

theorem Memory.alike_close (m : Memory) (l j : LockId) :
    (m.lock j).Alike ((m.close l).lock j) := by
  rw [close, lock_modifyLock]
  split
  · next h => rw [h]; exact ⟨rfl, rfl, rfl⟩
  · exact .refl _

/-! ## Waits -/

namespace Errand

variable {e : Errand} {d : Option Nat} {s : WaitStage}

theorem lock_conclude (m : Memory) (r : WaitResult) : (e.conclude m r).memory.lock = m.lock :=
  Memory.lock_of_locks (locks_conclude m r)

theorem stage?_waiting (hs : s ≠ .enter) : (Phase.waiting e d s).stage? e.lock = some s := by
  cases s with
  | enter => exact absurd rfl hs
  | checkFlag | doze | asleep => exact if_pos rfl

theorem stage?_waiting_of_ne {j : LockId} (hj : j ≠ e.lock) :
    (Phase.waiting e d s).stage? j = none := by
  cases s with
  | enter => rfl
  | checkFlag | doze | asleep => exact if_neg (Ne.symm hj)

theorem stage?_conclude (m : Memory) (r : WaitResult) (j : LockId) :
    (e.conclude m r).phase.stage? j = none := Phase.stage?_of_queue? (queue?_conclude m r) j

theorem stirs_of_waiting {f : Lock → Lock} (hm : st.memory.locks = (m.modifyLock e.lock f).locks)
    (hq : ∀ j, j ≠ e.lock → st.phase.stage? j = none)
    (hl : Stir me e.lock (.waiting e d s) (m.lock e.lock) st.phase (f (m.lock e.lock))) :
    Stirs me m (.waiting e d s) st := by
  refine stirs_of_modify hm hl ?_
  intro j hj
  constructor
  · rw [hq j hj, stage?_waiting_of_ne hj]
  · exact nofun

/-- A wait that ends with the thread out of the queue, before it slept. -/
theorem stirs_of_quit {m' : Memory} (hm : m'.locks = m.locks) (hs : s = .checkFlag ∨ s = .doze)
    (r : WaitResult) : Stirs me m (.waiting e d s) (e.conclude (e.quit me m') r) := by
  refine stirs_of_waiting (f := fun k => { k with mutex := k.mutex.leave me, latch := none }) ?_
    (fun j _ => stage?_conclude ..) ?_
  · rw [locks_conclude, quit, Memory.modifyLock, hm]
    rfl
  · refine .quit ?_ (stage?_conclude ..)
    rcases hs with rfl | rfl
    · exact .inl (stage?_waiting (by decide))
    · exact .inr (stage?_waiting (by decide))

theorem enter_stirs (hf : (m.lock e.lock).latch = none)
    (hx : (m.lock e.lock).mutex.take? me = none) :
    Stirs me m (.waiting e d .enter) (.moveTo
      ((m.setMutex e.lock ((m.lock e.lock).mutex.enqueue me)).setLatch e.lock (some me))
      (.waiting e d .checkFlag)) := by
  obtain ⟨o, hne, ho⟩ := Mutex.take?_eq_none_iff.mp hx
  exact stirs_of_waiting
    (f := fun k => { k with mutex := (m.lock e.lock).mutex.enqueue me, latch := some me })
    (Memory.locks_modifyLock_modifyLock ..) (fun j hj => stage?_waiting_of_ne hj)
    (.enter hf ho hne rfl (stage?_waiting (by decide)))

theorem sleep_stirs : Stirs me m (.waiting e d .doze) (.moveTo
    ((m.sleep e.lock me).setLatch e.lock none) (.waiting e d .asleep)) :=
  stirs_of_waiting (f := fun k => { k with sleepers := k.sleepers ++ [me], latch := none })
    (Memory.locks_modifyLock_modifyLock ..) (fun j hj => stage?_waiting_of_ne hj)
    (.sleep (stage?_waiting (by decide)) (stage?_waiting (by decide)))

theorem drowse_stirs :
    Stirs me m (.waiting e d .checkFlag) (.moveTo m (.waiting e d .doze)) := by
  intro j
  by_cases hj : j = e.lock
  · subst hj
    exact .drowse (stage?_waiting (by decide)) (stage?_waiting (by decide))
  · refine .rest (.refl _) ?_ (Option.some_ne_none _).symm
    rw [stage?_waiting_of_ne hj]
    exact stage?_waiting_of_ne hj

end Errand

/-- **Every action stirs the locks as it may.** -/
theorem Phase.next_stirs (h : p.next me now m = some st) : Stirs me m p st := by
  cases next_acts h with
  | create | makeLock => exact stirs_of_alike (m.alike_addLock _) rfl rfl rfl
  | close | closeRaw => exact stirs_of_alike (m.alike_close _) rfl rfl rfl
  | queueFull | spent | listed | cycle =>
    exact stirs_of_quiet (Memory.locks_forgoAll ..) rfl rfl rfl
  | listTables | seek => exact stirs_of_quiet (Memory.locks_retainAll ..) rfl rfl rfl
  | take hf hx | probe hf hx | tried hf hx => exact stirs_of_take hf hx rfl rfl rfl rfl
  -- Whoever gives up the last hold has wake-ups to send.
  | backOut hf hx hk | unlock hf hx hk | unprobe hf hx hk | give hf hx hk =>
    exact stirs_of_release hf hx rfl rfl rfl rfl fun ho =>
      absurd ho (Mutex.owner_of_isLocked hk)
  | backOutLast hf hx | unlockLast hf hx | unprobeLast hf hx | giveLast hf hx =>
    exact stirs_of_release hf hx rfl rfl rfl rfl fun _ => rfl
  | backedOut | notify | disposed | given => exact stirs_of_notify rfl rfl rfl (.inr rfl)
  | wake | woken => exact stirs_of_notify rfl rfl rfl (.inl rfl)
  | acquire hf hx =>
    exact stirs_of_take hf hx (Errand.locks_conclude ..) rfl (Errand.queue?_conclude ..) rfl
  | enter hf hx => exact Errand.enter_stirs hf hx
  | heed =>
    have hm : (m.clearInterrupt me).locks = m.locks := rfl
    exact Errand.stirs_of_quit hm (.inl rfl) _
  | drowse => exact Errand.drowse_stirs
  | timeOut => exact Errand.stirs_of_quit rfl (.inr rfl) _
  | sleep => exact Errand.sleep_stirs
  | grab hf hs hx =>
    exact Errand.stirs_of_waiting (Errand.locks_conclude ..) (fun j _ => Errand.stage?_conclude ..)
      (.grab hf hs hx (Errand.stage?_waiting (by decide)) (Errand.stage?_conclude ..))
  | rise hf hs hx =>
    obtain ⟨o, hne, ho⟩ := Mutex.take?_eq_none_iff.mp hx
    exact Errand.stirs_of_waiting rfl (fun j hj => Errand.stage?_waiting_of_ne hj)
      (.rise hf hs ho hne (Errand.stage?_waiting (by decide)) (Errand.stage?_waiting (by decide)))
  | _ => exact stirs_of_quiet rfl rfl rfl rfl

end

end KeyedLocks
