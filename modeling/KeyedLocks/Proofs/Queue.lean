import Mathlib.Data.List.Nodup
import Mathlib.Logic.Function.Basic
import KeyedLocks.Proofs.Actions
import KeyedLocks.Proofs.Mutex

/-!
# Queues and turns

`Turn me X p X' p'` lists what an action of `me` from phase `p` to phase `p'` can do to the mutexes
of the locks; `Phase.next_turns` says that every action is such a turn. A thread is in the queue of
a lock just while it waits for it, and in no other queue (`Queues`), which turns keep.
-/

namespace KeyedLocks

open Function (update)

/-- The lock in whose queue a thread is. -/
def Phase.queue? : Phase → Option LockId
  | .waiting _ _ .enter => none
  | .waiting e _ _ => some e.lock
  | _ => none

/-- The thread is in a deadlock check that has found the lock taken, or past it and about to wait,
but not in the queue yet. -/
def Phase.inWindow : Phase → Bool
  | .checking _ .isLocked => false
  | .checking .. | .spend .. | .waiting _ _ .enter => true
  | _ => false

/-- The phases from which an action may lead into the window. -/
def Phase.vets : Phase → Bool
  | .checking .. | .spend .. => true
  | _ => false

/-! ## The mutexes of a memory -/

namespace Memory

def mutexes (m : Memory) (l : LockId) : Mutex := (m.lock l).mutex

variable {m m' : Memory} {l : LockId} {t : ThreadId}

theorem mutexes_of_locks (h : m'.locks = m.locks) : m'.mutexes = m.mutexes := by
  funext j
  rw [mutexes, lock_of_locks h, mutexes]

theorem mutexes_setMutex (m : Memory) (l : LockId) (x : Mutex) :
    (m.setMutex l x).mutexes = update m.mutexes l x := by
  funext j
  rw [mutexes, setMutex, lock_modifyLock, Function.update_apply]
  split <;> rfl

theorem mutexes_modifyLock {f : Lock → Lock} (hf : (f (m.lock l)).mutex = (m.lock l).mutex) :
    (m.modifyLock l f).mutexes = m.mutexes := by
  funext j
  rw [mutexes, lock_modifyLock]
  split
  · next h => rw [hf, h]; rfl
  · rfl

@[simp] theorem mutexes_setLatch (o : Option ThreadId) : (m.setLatch l o).mutexes = m.mutexes :=
  mutexes_modifyLock rfl

@[simp] theorem mutexes_sleep : (m.sleep l t).mutexes = m.mutexes := mutexes_modifyLock rfl

@[simp] theorem mutexes_rouse : (m.rouse l t).mutexes = m.mutexes := mutexes_modifyLock rfl

@[simp] theorem mutexes_notifyAll : (m.notifyAll l).mutexes = m.mutexes := mutexes_modifyLock rfl

@[simp] theorem mutexes_close : (m.close l).mutexes = m.mutexes := mutexes_modifyLock rfl

@[simp] theorem mutexes_addLock (identifier : String) :
    (m.addLock identifier).mutexes = m.mutexes := by
  funext j
  rw [mutexes, lock_addLock]
  split
  · next h =>
    have hd : m.lock j = default := Arena.get_of_fresh_le (Nat.le_of_eq h.symm)
    rw [mutexes, hd]
    rfl
  · rfl

@[simp] theorem mutexes_addEntry (table : TableId) (identifier : String) :
    (m.addEntry table identifier).mutexes = m.mutexes := mutexes_addLock identifier

theorem mutexes_quit (e : Errand) :
    (e.quit t m).mutexes = update m.mutexes e.lock ((m.mutexes e.lock).leave t) := by
  funext j
  rw [mutexes, Errand.quit, lock_modifyLock, Function.update_apply]
  split <;> rfl

end Memory

/-! ## Turns -/

/-- What an action of `me` from `p` to `p'` can do to the mutexes. -/
inductive Turn (me : ThreadId) (X : LockId → Mutex) : Phase → (LockId → Mutex) → Phase → Prop where
  | rest {p p' : Phase} : p'.queue? = p.queue? → (p'.inWindow → p.vets) → Turn me X p X p'
  | take {l : LockId} {x : Mutex} {p p' : Phase} : (X l).take? me = some x → p.queue? = none →
      p'.queue? = none → p'.inWindow = false → Turn me X p (update X l x) p'
  | release {l : LockId} {x : Mutex} {p p' : Phase} : (X l).release? me = some x →
      p.queue? = none → p'.queue? = none → p'.inWindow = false → Turn me X p (update X l x) p'
  | enter {e : Errand} {d d' : Option Nat} {o : ThreadId} : (X e.lock).owner = some o → o ≠ me →
      Turn me X (.waiting e d .enter) (update X e.lock ((X e.lock).enqueue me))
        (.waiting e d' .checkFlag)
  | leave {e : Errand} {d : Option Nat} {s : WaitStage} {p' : Phase} : s ≠ .enter →
      p'.queue? = none → p'.inWindow = false →
      Turn me X (.waiting e d s) (update X e.lock ((X e.lock).leave me)) p'
  | grab {e : Errand} {d : Option Nat} {s : WaitStage} {x : Mutex} {p' : Phase} : s ≠ .enter →
      (X e.lock).take? me = some x → p'.queue? = none → p'.inWindow = false →
      Turn me X (.waiting e d s) (update X e.lock (x.leave me)) p'

/-- The action that leads `me` from phase `p` to what `st` says is a turn. -/
def Turns (me : ThreadId) (m : Memory) (p : Phase) (st : Step) : Prop :=
  Turn me m.mutexes p st.memory.mutexes st.phase

section
variable {me : ThreadId} {now : Nat} {m : Memory} {p : Phase} {st : Step}

/-- An action that leaves the locks alone, of a thread that is in no queue. -/
theorem turns_of_quiet (hm : st.memory.locks = m.locks) (hp : p.queue? = none)
    (hq : st.phase.queue? = none) (hw : st.phase.inWindow → p.vets) : Turns me m p st := by
  have hx : st.memory.mutexes = m.mutexes := Memory.mutexes_of_locks hm
  unfold Turns
  rw [hx]
  exact .rest (hq.trans hp.symm) hw

theorem turns_of_mutexes (hm : st.memory.mutexes = m.mutexes) (hp : p.queue? = none)
    (hq : st.phase.queue? = none) (hw : st.phase.inWindow = false) : Turns me m p st := by
  unfold Turns
  rw [hm]
  refine .rest (hq.trans hp.symm) fun h => ?_
  rw [hw] at h
  cases h

theorem turns_of_take {l : LockId} {x : Mutex} (hx : (m.lock l).mutex.take? me = some x)
    (hm : st.memory = m.setMutex l x) (hp : p.queue? = none) (hq : st.phase.queue? = none)
    (hw : st.phase.inWindow = false) : Turns me m p st := by
  unfold Turns
  rw [hm, Memory.mutexes_setMutex]
  exact .take hx hp hq hw

theorem turns_of_release {l : LockId} {x : Mutex} (hx : (m.lock l).mutex.release? me = some x)
    (hm : st.memory.locks = (m.setMutex l x).locks) (hp : p.queue? = none)
    (hq : st.phase.queue? = none) (hw : st.phase.inWindow = false) : Turns me m p st := by
  unfold Turns
  rw [Memory.mutexes_of_locks hm, Memory.mutexes_setMutex]
  exact .release hx hp hq hw

/-! ### Waits -/

namespace Errand

variable {e : Errand}

@[simp] theorem mutexes_conclude (m : Memory) (r : WaitResult) :
    (e.conclude m r).memory.mutexes = m.mutexes := Memory.mutexes_of_locks (locks_conclude m r)

theorem queue?_conclude (m : Memory) (r : WaitResult) : (e.conclude m r).phase.queue? = none := by
  cases e <;> cases r <;> rfl

theorem inWindow_conclude (m : Memory) (r : WaitResult) :
    (e.conclude m r).phase.inWindow = false := by
  cases e <;> cases r <;> rfl

theorem turns_of_waiting {d : Option Nat} {s s' : WaitStage} {m' : Memory}
    (hm : m'.mutexes = m.mutexes) (hs : s ≠ .enter) (hs' : s' ≠ .enter) :
    Turns me m (.waiting e d s) (.moveTo m' (.waiting e d s')) := by
  unfold Turns
  rw [Step.moveTo, hm]
  have hq : (Phase.waiting e d s').queue? = (Phase.waiting e d s).queue? := by
    cases s <;> cases s' <;> first | contradiction | rfl
  have hw : (Phase.waiting e d s').inWindow → (Phase.waiting e d s).vets := by
    intro hw
    cases s' <;> contradiction
  exact .rest hq hw

theorem turns_of_quit {d : Option Nat} {s : WaitStage} {m' : Memory} (hm : m'.mutexes = m.mutexes)
    (hs : s ≠ .enter) (r : WaitResult) :
    Turns me m (.waiting e d s) (e.conclude (e.quit me m') r) := by
  unfold Turns
  rw [mutexes_conclude, Memory.mutexes_quit, hm]
  exact .leave hs (queue?_conclude ..) (inWindow_conclude ..)

theorem turns_of_enter {d : Option Nat} (hx : (m.lock e.lock).mutex.take? me = none) :
    Turns me m (.waiting e d .enter) (.moveTo
      ((m.setMutex e.lock ((m.lock e.lock).mutex.enqueue me)).setLatch e.lock (some me))
      (.waiting e d .checkFlag)) := by
  obtain ⟨o, hne, ho⟩ := Mutex.take?_eq_none_iff.mp hx
  unfold Turns
  rw [Step.moveTo, Memory.mutexes_setLatch, Memory.mutexes_setMutex]
  exact .enter ho hne

end Errand

/-- **Every action is a turn.** -/
theorem Phase.next_turns (h : p.next me now m = some st) : Turns me m p st := by
  cases next_acts h with
  | take _ hx | probe _ hx | tried _ hx => exact turns_of_take hx rfl rfl rfl rfl
  | backOut _ hx | backOutLast _ hx | unlock _ hx | unlockLast _ hx | unprobe _ hx
  | unprobeLast _ hx | give _ hx | giveLast _ hx => exact turns_of_release hx rfl rfl rfl rfl
  | spend | check | pass => exact turns_of_quiet rfl rfl rfl fun _ => rfl
  | listTables => exact turns_of_quiet (Memory.locks_retainAll ..) rfl rfl fun _ => rfl
  | seek => exact turns_of_quiet (Memory.locks_retainAll ..) rfl rfl nofun
  | listed => exact turns_of_quiet (Memory.locks_forgoAll ..) rfl rfl fun _ => rfl
  | queueFull | spent | cycle => exact turns_of_quiet (Memory.locks_forgoAll ..) rfl rfl nofun
  | acquire _ hx =>
    unfold Turns
    rw [Errand.mutexes_conclude, Memory.mutexes_setMutex]
    exact .take hx rfl (Errand.queue?_conclude ..) (Errand.inWindow_conclude ..)
  | enter _ hx => exact Errand.turns_of_enter hx
  | heed =>
    have hm : (m.clearInterrupt me).mutexes = m.mutexes := rfl
    exact Errand.turns_of_quit (s := .checkFlag) hm nofun _
  | timeOut => exact Errand.turns_of_quit (s := .doze) rfl nofun _
  | drowse => exact Errand.turns_of_waiting rfl nofun nofun
  | sleep =>
    exact Errand.turns_of_waiting ((Memory.mutexes_setLatch _).trans Memory.mutexes_sleep)
      nofun nofun
  | rise => exact Errand.turns_of_waiting (Memory.mutexes_setLatch _) nofun nofun
  | grab _ _ hx =>
    unfold Turns
    rw [Errand.mutexes_conclude, Memory.mutexes_setMutex]
    exact .grab nofun hx (Errand.queue?_conclude ..) (Errand.inWindow_conclude ..)
  | backedOut | notify | disposed | given | wake | woken =>
    exact turns_of_mutexes Memory.mutexes_notifyAll rfl rfl rfl
  | close | closeRaw => exact turns_of_mutexes Memory.mutexes_close rfl rfl rfl
  | create | makeLock => exact turns_of_mutexes (Memory.mutexes_addLock _) rfl rfl rfl
  | _ => exact turns_of_quiet rfl rfl rfl nofun

end

/-! ## Who is in which queue -/

theorem Phase.queue?_waiting {e : Errand} {d : Option Nat} {s : WaitStage} (hs : s ≠ .enter) :
    (Phase.waiting e d s).queue? = some e.lock := by
  cases s <;> first | contradiction | rfl

theorem Phase.waiting_of_queue? {p : Phase} {l : LockId} (h : p.queue? = some l) :
    ∃ e d s, p = .waiting e d s ∧ e.lock = l := by
  unfold queue? at h
  split at h
  · cases h
  · next e d s _ => exact ⟨e, d, s, rfl, Option.some.inj h⟩
  · cases h

/-- Each thread is in the queue of one lock at most, once, and `q` says in which. -/
structure Queues (X : LockId → Mutex) (q : ThreadId → Option LockId) : Prop where
  nodup : ∀ l, (X l).waiters.Nodup
  mem_iff : ∀ {t l}, t ∈ (X l).waiters ↔ q t = some l

namespace Queues

variable {X X' : LockId → Mutex} {q : ThreadId → Option LockId} {me : ThreadId} {p p' : Phase}

theorem not_mem (h : Queues X q) {t : ThreadId} (ht : q t = none) (l : LockId) :
    t ∉ (X l).waiters := by
  rw [h.mem_iff, ht]
  exact nofun

theorem of_waiters (h : Queues X q) {l : LockId} {x : Mutex}
    (hx : x.waiters = (X l).waiters) : Queues (update X l x) q := by
  have hw (j : LockId) : (update X l x j).waiters = (X j).waiters := by
    rw [Function.update_apply]
    split
    · next hj => rw [hx, hj]
    · rfl
  constructor
  · intro j
    rw [hw]
    exact h.nodup j
  · intro t j
    rw [hw]
    exact h.mem_iff

theorem join (h : Queues X q) (hme : q me = none) (l : LockId) :
    Queues (update X l ((X l).enqueue me)) (update q me (some l)) where
  nodup j := by
    rw [Function.update_apply]
    split
    · refine List.nodup_append.mpr ⟨h.nodup l, List.nodup_singleton me, ?_⟩
      rintro a ha b hb rfl
      rw [List.mem_singleton.mp hb] at ha
      exact h.not_mem hme l ha
    · exact h.nodup j
  mem_iff {t j} := by
    have hold := h.mem_iff (t := t) (l := j)
    rw [Function.update_apply, Function.update_apply]
    by_cases hj : j = l
    · subst hj
      rw [if_pos rfl, Mutex.enqueue, List.mem_append, List.mem_singleton, hold]
      by_cases ht : t = me
      · simp only [ht, or_true, if_true]
      · simp only [ht, or_false, if_false]
    · rw [if_neg hj, hold]
      by_cases ht : t = me
      · simp only [ht, hme, if_true, reduceCtorEq, Option.some.injEq, Ne.symm hj]
      · simp only [ht, if_false]

theorem leave (h : Queues X q) {l : LockId} (hme : q me = some l) :
    Queues (update X l ((X l).leave me)) (update q me none) where
  nodup j := by
    rw [Function.update_apply]
    split
    · exact nodup_leaveQueue (h.nodup l) me
    · exact h.nodup j
  mem_iff {t j} := by
    have hold := h.mem_iff (t := t) (l := j)
    rw [Function.update_apply, Function.update_apply]
    by_cases hj : j = l
    · subst hj
      rw [if_pos rfl, Mutex.leave, mem_leaveQueue (h.nodup j), hold]
      by_cases ht : t = me
      · simp only [ht, ne_eq, not_true_eq_false, and_false, if_true, reduceCtorEq]
      · simp only [ht, ne_eq, not_false_eq_true, and_true, if_false]
    · rw [if_neg hj, hold]
      by_cases ht : t = me
      · simp only [ht, hme, if_true, reduceCtorEq, Option.some.injEq, Ne.symm hj]
      · simp only [ht, if_false]

/-- **Every turn keeps the queues.** -/
theorem turn (h : Queues X q) (ht : Turn me X p X' p') (hq : q me = p.queue?) :
    Queues X' (update q me p'.queue?) := by
  cases ht with
  | rest hp =>
    rw [hp, ← hq, Function.update_eq_self]
    exact h
  | take hx hp hp' =>
    rw [hp', ← hp, ← hq, Function.update_eq_self]
    exact h.of_waiters (Mutex.waiters_of_take? hx)
  | release hx hp hp' =>
    rw [hp', ← hp, ← hq, Function.update_eq_self]
    exact h.of_waiters (Mutex.waiters_of_release? hx)
  | enter => exact h.join hq _
  | leave hs hp' =>
    rw [hp']
    exact h.leave (hq.trans (Phase.queue?_waiting hs))
  | @grab e d s x p' hs hx hp' =>
    rw [hp']
    have hleft : Queues (update X e.lock ((X e.lock).leave me)) (update q me none) :=
      h.leave (hq.trans (Phase.queue?_waiting hs))
    have hl : (x.leave me).waiters =
        (update X e.lock ((X e.lock).leave me) e.lock).waiters := by
      rw [Function.update_self, Mutex.leave, Mutex.leave, Mutex.waiters_of_take? hx]
    have hgrab := hleft.of_waiters hl
    rw [Function.update_idem] at hgrab
    exact hgrab

end Queues

end KeyedLocks
