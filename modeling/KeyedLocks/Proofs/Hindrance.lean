import KeyedLocks.Proofs.Check
import KeyedLocks.Proofs.Refusal
import KeyedLocks.Proofs.Solo
import KeyedLocks.Proofs.Trail

/-!
# What stands in the way of an acquisition

When someone else has the lock, an acquisition that nobody disturbs can only fail, and what it finds
at its start decides how: `Attempt.hindrance` says so, the reasons in the order in which they count.
No reason is left when the attempts have no limit; then the acquisition does not return.

`Waypoint t M a j p m` lists where such an acquisition of `a` can be that began with memory `M`: at
phase `p` with memory `m`, after `j` waits. Each action leads from one to the next, or to the
refusal that `hindrance` names, and then the memory is what it was (`Waypoint.next`).
-/

namespace KeyedLocks

instance (m : Memory) (me : ThreadId) (target : LockId) : Decidable (m.Deadlocked me target) :=
  decidable_of_iff (wouldDeadlock me (m.lock target).mutex m.snapshot = true) wouldDeadlock_iff

namespace Attempt

/-- Why `t` is refused a lock that someone else has, if nobody moves meanwhile: the queue is full,
the wait would close a cycle, the first attempt was the only one, `t` has an interrupt pending, or
its attempts are used up. -/
def hindrance (a : Attempt) (t : ThreadId) (m : Memory) : Option LockError :=
  let i := a.identifier m
  let queued := (m.lock a.lock).mutex.queueLength
  match a.policy.queueLimit.filter (· ≤ queued) with
  | some limit => some (.tooManyQueued i queued limit)
  | none =>
    if m.Deadlocked t a.lock then some (.deadlock i)
    else if a.policy.attempts = some 1 then some (.attemptsExceeded i 1)
    else if m.isInterrupted t then some (.interrupted i)
    else a.policy.attempts.map (.attemptsExceeded i)

end Attempt

namespace LockError

/-- The waits of an undisturbed acquisition that fails so. -/
def waits : LockError → Nat
  | .attemptsExceeded _ n => n - 1
  | .interrupted _ => 1
  | _ => 0

/-- The error has used up the flag of the thread. -/
def takesFlag : LockError → Bool
  | .interrupted _ => true
  | _ => false

end LockError

/-- All that an undisturbed refusal of `t` changes is its flag, if that is the reason. -/
def Memory.refusing (m : Memory) (t : ThreadId) (e : LockError) : Memory :=
  if e.takesFlag then m.clearInterrupt t else m

namespace Attempt

variable {a : Attempt} {t : ThreadId} {m : Memory}

theorem hindrance_of_full {k : Nat} (hk : a.policy.queueLimit = some k)
    (hle : k ≤ (m.lock a.lock).mutex.queueLength) : a.hindrance t m =
      some (.tooManyQueued (a.identifier m) (m.lock a.lock).mutex.queueLength k) := by
  have hf : a.policy.queueLimit.filter (· ≤ (m.lock a.lock).mutex.queueLength) = some k := by
    rw [hk, Option.filter_some, if_pos (decide_eq_true hle)]
  simp only [hindrance, hf]

/-- If there is room in the queue, the other reasons count. -/
theorem hindrance_of_room
    (hr : a.policy.queueLimitReached (m.lock a.lock).mutex.queueLength = false) :
    a.hindrance t m =
      if m.Deadlocked t a.lock then some (.deadlock (a.identifier m))
      else if a.policy.attempts = some 1 then some (.attemptsExceeded (a.identifier m) 1)
      else if m.isInterrupted t then some (.interrupted (a.identifier m))
      else a.policy.attempts.map (.attemptsExceeded (a.identifier m)) := by
  have hf : a.policy.queueLimit.filter (· ≤ (m.lock a.lock).mutex.queueLength) = none := by
    rw [Option.filter_eq_none_iff]
    intro k hk
    rw [Policy.queueLimitReached, hk] at hr
    exact Bool.eq_false_iff.mp hr
  simp only [hindrance, hf]

theorem exists_hindrance (ha : a.policy.attempts ≠ none) (t : ThreadId) (m : Memory) :
    ∃ e, a.hindrance t m = some e := by
  obtain ⟨n, hn⟩ := Option.ne_none_iff_exists'.mp ha
  unfold hindrance
  rw [hn]
  dsimp only
  repeat' split
  all_goals exact ⟨_, rfl⟩

end Attempt

/-! ## Queues that a thread joins and leaves -/

theorem leaveQueue_append {q : List ThreadId} {t : ThreadId} (ht : t ∉ q) :
    leaveQueue (q ++ [t]) t = q := by
  have hidx : (q ++ [t]).idxOf? t = some q.length := by
    rw [List.idxOf?_eq_some_iff]
    refine ⟨by simp, by simp, fun j hj he => ?_⟩
    rw [List.getElem_append_left hj] at he
    exact ht (he ▸ List.getElem_mem hj)
  unfold leaveQueue
  rw [hidx, List.getLast?_append_of_ne_nil _ (by simp)]
  simp

/-- The lock with `t` at the end of its queue. -/
def Lock.joined (k : Lock) (t : ThreadId) : Lock := { k with mutex := k.mutex.enqueue t }

theorem Mutex.leave_enqueue {x : Mutex} {t : ThreadId} (ht : t ∉ x.waiters) :
    (x.enqueue t).leave t = x := by
  unfold Mutex.leave Mutex.enqueue
  rw [leaveQueue_append ht]

/-! ## Looking for a lock -/

section
variable {m : Memory} {t : ThreadId} {now : Nat} {table : TableId} {i : String} {l : LockId}

theorem next_lookUp_found (hf : (m.table table).find? i = some l) :
    (Phase.lookUp table i).next t now m = some (.moveTo m (.tryTake (.ofEntry m table l))) := by
  show some (lookUp m table i) = _
  rw [lookUp, hf]

theorem next_lookUp_absent (hf : (m.table table).find? i = none) :
    (Phase.lookUp table i).next t now m = some (.moveTo m (.insert table i)) := by
  show some (lookUp m table i) = _
  rw [lookUp, hf]

theorem next_insert (hf : (m.table table).find? i = none) : (Phase.insert table i).next t now m =
    some ((Step.moveTo (m.addEntry table i) (.tryTake (.ofEntry m table m.locks.fresh))).emit
      (.entryCreated i)) := by
  show some (insert m table i) = _
  rw [insert, hf]

end

/-! ## Waypoints -/

/-- Thread `t` cannot have the lock, since someone else has it, and `t` does not wait for it. -/
structure Hindered (t : ThreadId) (k : Lock) : Prop where
  taken : k.mutex.take? t = none
  outside : t ∉ k.mutex.waiters
  awake : t ∉ k.sleepers

theorem Hindered.taken_joined {t : ThreadId} {k : Lock} (h : Hindered t k) :
    (k.joined t).mutex.take? t = none := by
  obtain ⟨o, hne, ho⟩ := Mutex.take?_eq_none_iff.mp h.taken
  exact Mutex.take?_eq_none_iff.mpr ⟨o, hne, ho⟩

namespace Memory

/-- Thread `t` has joined the queue of lock `l` and is inside it. -/
def queued (M : Memory) (l : LockId) (t : ThreadId) : Memory :=
  M.put l { (M.lock l).joined t with latch := some t }

/-- Thread `t` is in the queue of lock `l`, and `sleepers` are asleep there. -/
def dozing (M : Memory) (l : LockId) (t : ThreadId) (sleepers : List ThreadId) : Memory :=
  M.put l { (M.lock l).joined t with sleepers, latch := none }

end Memory

/-! ### The actions of a wait -/

section
variable {t : ThreadId} {M : Memory} {a : Attempt} {now : Nat} {left d : Option Nat}

/-- Who leaves the queue and gives back the latch leaves the memory as it was before the wait. -/
theorem quit_queued (hk : Hindered t (M.lock a.lock)) (hl : (M.lock a.lock).latch = none) :
    (Errand.attempt a left).quit t (M.queued a.lock t) = M := by
  obtain ⟨o, -, ho⟩ := Mutex.take?_eq_none_iff.mp hk.taken
  show (M.put a.lock _).modifyLock a.lock _ = M
  rw [Memory.modifyLock_put]
  simp only [Lock.joined]
  rw [Mutex.leave_enqueue hk.outside, ← hl]
  exact Memory.put_lock_self (Memory.lt_fresh_of_owner ho)

theorem next_enter (hk : Hindered t (M.lock a.lock)) (hl : (M.lock a.lock).latch = none) :
    (Phase.waiting (.attempt a left) d .enter).next t now M =
      some (.moveTo (M.queued a.lock t) (.waiting (.attempt a left) d .checkFlag)) := by
  simp only [Phase.next, Errand.wait]
  refine Memory.critical_eq_some_iff.mpr ⟨hl, ?_⟩
  rw [show (M.lock (Errand.attempt a left).lock).mutex.take? t = none from hk.taken]
  show Step.moveTo ((M.put a.lock ((M.lock a.lock).joined t)).setLatch a.lock (some t)) _ = _
  rw [Memory.setLatch, Memory.modifyLock_put]
  rfl

theorem next_checkFlag (hk : Hindered t (M.lock a.lock)) (hl : (M.lock a.lock).latch = none) :
    (Phase.waiting (.attempt a left) d .checkFlag).next t now (M.queued a.lock t) =
      some (if M.isInterrupted t then
        (a.fail (M.clearInterrupt t) (.interrupted (a.identifier M))).emit
          (.waitInterrupted (a.identifier M))
      else .moveTo (M.queued a.lock t) (.waiting (.attempt a left) d .doze)) := by
  have hq : (Errand.attempt a left).quit t ((M.queued a.lock t).clearInterrupt t) =
      M.clearInterrupt t := quit_queued (M := M.clearInterrupt t) hk hl
  have hi : (M.queued a.lock t).isInterrupted t = M.isInterrupted t := rfl
  simp only [Phase.next, Errand.wait, hi, hq]
  split <;> rfl

theorem next_doze (hk : Hindered t (M.lock a.lock)) (hl : (M.lock a.lock).latch = none) :
    (Phase.waiting (.attempt a left) d .doze).next t now (M.queued a.lock t) =
      some (if d.any (· ≤ now) then .moveTo M (.checking (.attempt a left) .isLocked)
      else .moveTo (M.dozing a.lock t ((M.lock a.lock).sleepers ++ [t]))
        (.waiting (.attempt a left) d .asleep)) := by
  have hs : ((M.queued a.lock t).sleep a.lock t).setLatch a.lock none =
      M.dozing a.lock t ((M.lock a.lock).sleepers ++ [t]) := by
    rw [Memory.setLatch, Memory.sleep, Memory.queued, Memory.modifyLock_put, Memory.modifyLock_put]
    rfl
  simp only [Phase.next, Errand.wait, quit_queued hk hl]
  split
  · rfl
  · show some (Step.moveTo (((M.queued a.lock t).sleep a.lock t).setLatch a.lock none) _) = _
    rw [hs]

theorem next_asleep_eq_none {sleepers : List ThreadId} (ht : t ∈ sleepers) :
    (Phase.waiting (.attempt a left) d .asleep).next t now (M.dozing a.lock t sleepers) = none := by
  simp only [Phase.next, Errand.wait, Errand.lock, Memory.dozing, Memory.lock_put_self]
  exact if_pos ht

theorem rouse_dozing (hk : Hindered t (M.lock a.lock)) :
    (M.dozing a.lock t ((M.lock a.lock).sleepers ++ [t])).rouse a.lock t =
      M.dozing a.lock t (M.lock a.lock).sleepers := by
  have hkeep : (M.lock a.lock).sleepers.filter (· ≠ t) = (M.lock a.lock).sleepers := by
    rw [List.filter_eq_self]
    rintro u hu
    refine decide_eq_true ?_
    rintro rfl
    exact hk.awake hu
  have hgone : ((M.lock a.lock).sleepers ++ [t]).filter (· ≠ t) = (M.lock a.lock).sleepers := by
    rw [List.filter_append, hkeep]
    simp
  rw [Memory.rouse, Memory.dozing, Memory.modifyLock_put, hgone]
  rfl

/-- Who wakes up finds that the lock is not to be had, and goes on as before the sleep. -/
theorem next_asleep (hk : Hindered t (M.lock a.lock)) :
    (Phase.waiting (.attempt a left) d .asleep).next t now
        (M.dozing a.lock t (M.lock a.lock).sleepers) =
      some (.moveTo (M.queued a.lock t) (.waiting (.attempt a left) d .checkFlag)) := by
  simp only [Phase.next, Errand.wait, Errand.lock, Memory.dozing, Memory.lock_put_self]
  rw [if_neg hk.awake]
  refine Memory.critical_eq_some_iff.mpr ?_
  rw [Memory.lock_put_self]
  refine ⟨rfl, ?_⟩
  dsimp only
  rw [hk.taken_joined, Memory.setLatch, Memory.modifyLock_put]
  rfl

end

/-! ### The waypoints of an acquisition -/

/-- After `j` waits, so much is `left`; the queue had room, and if there was a wait, no cycle and no
interrupt stood in its way. -/
structure Ahead (t : ThreadId) (M : Memory) (a : Attempt) (j : Nat) (left : Option Nat) : Prop where
  unlatched : (M.lock a.lock).latch = none
  room : a.policy.queueLimitReached (M.lock a.lock).mutex.queueLength = false
  left : a.Left j left
  waited : 0 < j → ¬ M.Deadlocked t a.lock ∧ M.isInterrupted t = false

/-- In its wait number `j`, what is left of the attempts, and why there is this wait. -/
structure Within (t : ThreadId) (M : Memory) (a : Attempt) (j : Nat) (left : Option Nat) :
    Prop where
  unlatched : (M.lock a.lock).latch = none
  room : a.policy.queueLimitReached (M.lock a.lock).mutex.queueLength = false
  left : a.Left j left
  first : 0 < j
  passed : ¬ M.Deadlocked t a.lock
  waited : 1 < j → M.isInterrupted t = false

/-- Where an acquisition of `a` by `t` that nobody disturbs can be, with the memory there, after `j`
waits; `M` is the memory it began with. -/
inductive Waypoint (t : ThreadId) (M : Memory) (a : Attempt) : Nat → Phase → Memory → Prop where
  | lookUp {table : TableId} {i : String} : (M.table table).find? i = some a.lock →
      a = .ofEntry M table a.lock → Waypoint t M a 0 (.lookUp table i) M
  | tryTake : Waypoint t M a 0 (.tryTake a) M
  | readQueue : Waypoint t M a 0 (.readQueue a) M
  | check {j : Nat} {left : Option Nat} {c : Check} {m : Memory} : Ahead t M a j left →
      c.Exact t a.lock M m → Waypoint t M a j (.checking (.attempt a left) c) m
  | spend {j : Nat} {left : Option Nat} : Ahead t M a j left → ¬ M.Deadlocked t a.lock →
      Waypoint t M a j (.spend a left) M
  | enter {j : Nat} {left d : Option Nat} : Within t M a (j + 1) left →
      Waypoint t M a j (.waiting (.attempt a left) d .enter) M
  | checkFlag {j : Nat} {left d : Option Nat} : Within t M a j left →
      Waypoint t M a j (.waiting (.attempt a left) d .checkFlag) (M.queued a.lock t)
  | doze {j : Nat} {left d : Option Nat} : Within t M a j left → M.isInterrupted t = false →
      Waypoint t M a j (.waiting (.attempt a left) d .doze) (M.queued a.lock t)
  | asleep {j : Nat} {left d : Option Nat} {sleepers : List ThreadId} : Within t M a j left →
      M.isInterrupted t = false →
      sleepers = (M.lock a.lock).sleepers ++ [t] ∨ sleepers = (M.lock a.lock).sleepers →
      Waypoint t M a j (.waiting (.attempt a left) d .asleep) (M.dozing a.lock t sleepers)

/-- The acquisition is refused for the reason there is, after as many waits as that takes. -/
def Refused (t : ThreadId) (M : Memory) (a : Attempt) (j : Nat) (st : Step) : Prop :=
  ∃ e, a.hindrance t M = some e ∧ j = e.waits ∧
    st.memory = (M.refusing t e).forgoAll a.table.toList ∧ st.phase = .idle ∧
    ∀ o, .returned o ∈ st.notes → o = .refused e

/-- An action of an undisturbed acquisition leads to another waypoint, or to its refusal. -/
def Proceeds (t : ThreadId) (M : Memory) (a : Attempt) (j : Nat) (st : Step) : Prop :=
  (Waypoint t M a j st.phase st.memory ∧ ∀ o, .returned o ∉ st.notes) ∨ Refused t M a j st

section
variable {t : ThreadId} {M m : Memory} {a : Attempt} {j now : Nat} {left : Option Nat} {st : Step}

theorem proceeds_to {p : Phase} (h : Waypoint t M a j p m) : Proceeds t M a j (.moveTo m p) :=
  .inl ⟨h, fun _ => List.not_mem_nil⟩

theorem Proceeds.emit (h : Proceeds t M a j st) (e : Event) : Proceeds t M a j (st.emit e) := by
  rcases h with ⟨hs, hn⟩ | ⟨e', he, hj, hm, hp, hn⟩
  · exact .inl ⟨hs, fun o ho => hn o (Step.returned_of_emit ho)⟩
  · exact .inr ⟨e', he, hj, hm, hp, fun o ho => hn o (Step.returned_of_emit ho)⟩

theorem proceeds_fail {e : LockError} (he : a.hindrance t M = some e) (hj : j = e.waits)
    (hm : m = M.refusing t e) : Proceeds t M a j (a.fail m e) := by
  refine .inr ⟨e, he, hj, ?_, rfl, fun o ho => Step.eq_of_returned ho⟩
  rw [← hm]
  rfl

theorem readQueue_proceeds (h : a.readQueue M = some st) : Proceeds t M a 0 st := by
  obtain ⟨hl, rfl⟩ := Memory.critical_eq_some_iff.mp h
  dsimp only
  split
  · next hq =>
    obtain ⟨k, hk, hle⟩ := (Option.any_eq_true _ _).mp hq
    rw [hk]
    exact (proceeds_fail (Attempt.hindrance_of_full hk (of_decide_eq_true hle)) rfl rfl).emit _
  · next hq =>
    exact proceeds_to (.check ⟨hl, Bool.eq_false_iff.mpr hq, a.left_zero, nofun⟩ .isLocked)

theorem check_proceeds {c : Check} (h : Ahead t M a j left) (hc : c.Exact t a.lock M m)
    (hst : (c.next t m a.lock).map (fun (m, v) => (Errand.attempt a left).judge m v) = some st) :
    Proceeds t M a j st := by
  obtain ⟨⟨m', v⟩, hv, rfl⟩ := Option.map_eq_some_iff.mp hst
  cases hc.next hv with
  | more hc' => exact proceeds_to (.check h hc')
  | passed hd => exact proceeds_to (.spend h hd)
  | cycle hd =>
    have hj : j = 0 := by
      by_contra hne
      exact (h.waited (Nat.pos_of_ne_zero hne)).1 hd
    refine Proceeds.emit (proceeds_fail (e := .deadlock _) ?_ hj rfl) _
    rw [Attempt.hindrance_of_room h.room, if_pos hd]
    rfl

theorem spend_proceeds (h : Ahead t M a j left) (hd : ¬ M.Deadlocked t a.lock) :
    Proceeds t M a j (a.spend now M left) := by
  unfold Attempt.spend
  split
  · next hl =>
    -- The attempts there were are those of the waits and the first one.
    have hn : a.policy.attempts = some (j + 1) := by
      rw [← h.left.total, hl, Option.map_some, Nat.zero_add]
    rw [hn]
    refine Proceeds.emit (proceeds_fail (e := .attemptsExceeded _ (j + 1)) ?_ rfl rfl) _
    rw [Attempt.hindrance_of_room h.room, if_neg hd, hn]
    by_cases hj : j = 0
    · subst hj
      exact if_pos rfl
    · have hne : (some (j + 1) : Option Nat) ≠ some 1 := fun he => hj (by simpa using he)
      rw [if_neg hne, (h.waited (Nat.pos_of_ne_zero hj)).2]
      rfl
  · next hl =>
    refine (proceeds_to (.enter ?_)).emit _
    exact ⟨h.unlatched, h.room, h.left.spend hl, Nat.succ_pos j, hd,
      fun hj => (h.waited (by omega)).2⟩

theorem checkFlag_proceeds (hk : Hindered t (M.lock a.lock)) (h : Within t M a j left)
    {d : Option Nat} (hst : (Phase.waiting (.attempt a left) d .checkFlag).next t now
      (M.queued a.lock t) = some st) : Proceeds t M a j st := by
  rw [next_checkFlag hk h.unlatched] at hst
  obtain rfl := Option.some.inj hst
  split
  · next hi =>
    have hj : j = 1 := by
      by_contra hne
      have hpos := h.first
      rw [h.waited (by omega)] at hi
      cases hi
    have hn : a.policy.attempts ≠ some 1 := by
      intro hn
      have hlt := h.left.2 1 hn
      omega
    refine Proceeds.emit (proceeds_fail (e := .interrupted _) ?_ hj rfl) _
    rw [Attempt.hindrance_of_room h.room, if_neg h.passed, if_neg hn, if_pos hi]
  · next hi => exact proceeds_to (.doze h (Bool.eq_false_iff.mpr hi))

theorem doze_proceeds (hk : Hindered t (M.lock a.lock)) (h : Within t M a j left)
    (hi : M.isInterrupted t = false) {d : Option Nat}
    (hst : (Phase.waiting (.attempt a left) d .doze).next t now (M.queued a.lock t) = some st) :
    Proceeds t M a j st := by
  rw [next_doze hk h.unlatched] at hst
  obtain rfl := Option.some.inj hst
  split
  · exact proceeds_to (.check ⟨h.unlatched, h.room, h.left, fun _ => ⟨h.passed, hi⟩⟩ .isLocked)
  · exact proceeds_to (.asleep h hi (.inl rfl))

theorem asleep_proceeds (hk : Hindered t (M.lock a.lock)) (h : Within t M a j left)
    (hi : M.isInterrupted t = false) {d : Option Nat} {sleepers : List ThreadId}
    (hs : sleepers = (M.lock a.lock).sleepers ++ [t] ∨ sleepers = (M.lock a.lock).sleepers)
    (hst : (Phase.waiting (.attempt a left) d .asleep).next t now
      (M.dozing a.lock t sleepers) = some st) : Proceeds t M a j st := by
  rcases hs with rfl | rfl
  · rw [next_asleep_eq_none (List.mem_append_right _ (List.mem_singleton_self t))] at hst
    cases hst
  · rw [next_asleep hk] at hst
    obtain rfl := Option.some.inj hst
    exact proceeds_to (.checkFlag ⟨h.unlatched, h.room, h.left, h.first, h.passed, fun _ => hi⟩)

variable {p : Phase}

/-- **Every action of an undisturbed acquisition proceeds.** -/
theorem Waypoint.next (hk : Hindered t (M.lock a.lock)) (h : Waypoint t M a j p m)
    (hst : p.next t now m = some st) : Proceeds t M a (j + p.beginsWait.toNat) st := by
  cases h with
  | lookUp hf ha =>
    rw [next_lookUp_found hf, ← ha] at hst
    cases hst
    exact proceeds_to .tryTake
  | tryTake =>
    have h : a.tryTake t M = some st := hst
    obtain ⟨-, rfl⟩ := Memory.critical_eq_some_iff.mp h
    rw [hk.taken]
    exact proceeds_to .readQueue
  | readQueue => exact readQueue_proceeds hst
  | check h hc => exact check_proceeds h hc hst
  | spend h hd =>
    cases hst
    exact spend_proceeds h hd
  | enter h =>
    rw [next_enter hk h.unlatched] at hst
    obtain rfl := Option.some.inj hst
    exact proceeds_to (.checkFlag h)
  | checkFlag h => exact checkFlag_proceeds hk h hst
  | doze h hi => exact doze_proceeds hk h hi hst
  | asleep h hi ha => exact asleep_proceeds hk h hi ha hst

theorem Waypoint.rouse (hk : Hindered t (M.lock a.lock)) {e : Errand} {d : Option Nat}
    (h : Waypoint t M a j (.waiting e d .asleep) m) (ht : t ∈ (m.lock e.lock).sleepers) :
    Waypoint t M a j (.waiting e d .asleep) (m.rouse e.lock t) := by
  cases h with
  | @asleep _ left d sleepers h hi hs =>
    rcases hs with rfl | rfl
    · show Waypoint t M a j _ ((M.dozing a.lock t _).rouse a.lock t)
      rw [rouse_dozing hk]
      exact .asleep h hi (.inr rfl)
    · rw [show (Errand.attempt a left).lock = a.lock from rfl, Memory.dozing,
        Memory.lock_put_self] at ht
      exact absurd ht hk.awake

end

end KeyedLocks
