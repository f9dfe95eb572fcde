import KeyedLocks.Proofs.Memory

/-!
# What an action does

`Phase.Acts me now m p st` lists everything a thread can do next: for each phase the ways its action
can go, with what it found in the memory and what it leaves behind. `Check.Reads` does the same for
the actions of a deadlock check that change nothing. `Phase.next_acts` says that every action is one
of these, so what is kept by all actions is proved by cases on `Acts`, and the code of the actions
is not looked at again.
-/

namespace KeyedLocks

open Step

/-- What an action of a check by `me` for lock `target` reads, and how the check goes on. -/
inductive Check.Reads (me : ThreadId) (m : Memory) (target : LockId) : Check → Verdict → Prop where
  | unlocked : (m.lock target).latch = none → (m.lock target).mutex.isLocked = false →
      Reads me m target .isLocked .passed
  | locked : (m.lock target).latch = none → (m.lock target).mutex.isLocked →
      Reads me m target .isLocked (.more .isMine)
  | mine : (m.lock target).latch = none → (m.lock target).mutex.isHeldBy me →
      Reads me m target .isMine .passed
  | others : (m.lock target).latch = none → (m.lock target).mutex.isHeldBy me = false →
      Reads me m target .isMine (.more .listTables)
  | listLocks {t todo kept locks} : Reads me m target (.listLocks (t :: todo) kept locks)
      (.more (.listLocks todo kept (locks ++ (m.table t).locks)))
  | ownerless {locks} : (m.lock target).latch = none → (m.lock target).mutex.owner = none →
      Reads me m target (.readOwner locks) .passed
  | own {locks} : (m.lock target).latch = none → (m.lock target).mutex.owner = some me →
      Reads me m target (.readOwner locks) .passed
  | owner {locks o} : (m.lock target).latch = none → (m.lock target).mutex.owner = some o →
      o ≠ me → Reads me m target (.readOwner locks) (.more (.search o locks (.start me)))
  | visit {goal locks s holder rest} : s.pending = holder :: rest →
      Reads me m target (.search goal locks s)
        (.more (.scan goal locks { s with pending := rest } holder locks []))
  | found {goal locks s} : s.pending = [] → goal ∈ s.found →
      Reads me m target (.search goal locks s) (.more .report)
  | missed {goal locks s} : s.pending = [] → goal ∉ s.found →
      Reads me m target (.search goal locks s) .passed
  | scanned {goal locks s holder waiters} : Reads me m target
      (.scan goal locks s holder [] waiters) (.more (.search goal locks (s.absorb waiters)))
  | held {goal locks s holder l todo waiters} : (m.lock l).latch = none →
      (m.lock l).mutex.isHeldBy holder →
      Reads me m target (.scan goal locks s holder (l :: todo) waiters)
        (.more (.collect goal locks s holder l todo waiters))
  | skipped {goal locks s holder l todo waiters} : (m.lock l).latch = none →
      (m.lock l).mutex.isHeldBy holder = false →
      Reads me m target (.scan goal locks s holder (l :: todo) waiters)
        (.more (.scan goal locks s holder todo waiters))
  | collected {goal locks s holder l todo waiters} : (m.lock l).latch = none →
      Reads me m target (.collect goal locks s holder l todo waiters)
        (.more (.scan goal locks s holder todo (waiters ++ (m.lock l).mutex.waiters)))
  | report : (m.lock target).latch = none →
      Reads me m target .report (.cycle (m.lock target).mutex.owner)

/-- What an action of `me` from a phase at the time `now` can be. -/
inductive Phase.Acts (me : ThreadId) (now : Nat) (m : Memory) : Phase → Step → Prop where
  -- Look-ups.
  | found {t i l} : (m.table t).find? i = some l →
      Acts me now m (.lookUp t i) (moveTo m (.tryTake (.ofEntry m t l)))
  | absent {t i} : (m.table t).find? i = none →
      Acts me now m (.lookUp t i) (moveTo m (.insert t i))
  | foundLate {t i l} : (m.table t).find? i = some l →
      Acts me now m (.insert t i) (moveTo m (.tryTake (.ofEntry m t l)))
  | create {t i} : (m.table t).find? i = none → Acts me now m (.insert t i)
      ((moveTo (m.addEntry t i) (.tryTake (.ofEntry m t m.locks.fresh))).emit (.entryCreated i))
  -- Attempts.
  | take {a x} : (m.lock a.lock).latch = none → (m.lock a.lock).mutex.take? me = some x →
      Acts me now m (.tryTake a) (moveTo (m.setMutex a.lock x) (.readClosed a))
  | miss {a} : (m.lock a.lock).latch = none → (m.lock a.lock).mutex.take? me = none →
      Acts me now m (.tryTake a) (moveTo m (.readQueue a))
  | queueFull {a} : (m.lock a.lock).latch = none →
      a.policy.queueLimitReached (m.lock a.lock).mutex.queueLength →
      Acts me now m (.readQueue a) ((finish (m.forgoAll a.table.toList)
        (.refused (.tooManyQueued (a.identifier m) (m.lock a.lock).mutex.queueLength
          (a.policy.queueLimit.getD 0)))).emit
        (.tooManyQueued (a.identifier m) (m.lock a.lock).mutex.queueLength))
  | room {a} : (m.lock a.lock).latch = none →
      a.policy.queueLimitReached (m.lock a.lock).mutex.queueLength = false →
      Acts me now m (.readQueue a)
        (moveTo m (.checking (.attempt a (a.policy.attempts.map (· - 1))) .isLocked))
  | spent {a} : Acts me now m (.spend a (some 0))
      ((finish (m.forgoAll a.table.toList) (.refused
        (.attemptsExceeded (a.identifier m) (a.policy.attempts.getD 0)))).emit
        (.attemptsExceeded (a.identifier m) a.policy.attempts))
  | spend {a left} : left ≠ some 0 → Acts me now m (.spend a left)
      ((moveTo m (.waiting (.attempt a (left.map (· - 1)))
        (deadlineAfter now a.policy.spinTime) .enter)).emit
        (.waiting (a.identifier m) (left.map (· - 1))))
  | shut {a} : (m.lock a.lock).closed → Acts me now m (.readClosed a) (moveTo m (.backOut a))
  | grant {a t} : (m.lock a.lock).closed = false → a.table = some t →
      Acts me now m (.readClosed a) (finish m (.obtained ⟨t, a.lock⟩))
  | live {a} : (m.lock a.lock).closed = false → a.table = none →
      Acts me now m (.readClosed a) (finish m .live)
  | backOut {a x} : (m.lock a.lock).latch = none → (m.lock a.lock).mutex.release? me = some x →
      x.isLocked → Acts me now m (.backOut a) (moveTo (m.setMutex a.lock x) (.discard a))
  | backOutLast {a x} : (m.lock a.lock).latch = none →
      (m.lock a.lock).mutex.release? me = some x → x.isLocked = false →
      Acts me now m (.backOut a) (moveTo (m.setMutex a.lock x) (.notifyBackOut a))
  | backOutFails {a} : (m.lock a.lock).latch = none →
      (m.lock a.lock).mutex.release? me = none → Acts me now m (.backOut a)
        ((moveTo m (.discard a)).emit (.closedNotHeld (a.identifier m)))
  | backedOut {a} : Acts me now m (.notifyBackOut a) (moveTo (m.notifyAll a.lock) (.discard a))
  | discard {a t} : a.table = some t → Acts me now m (.discard a)
      (moveTo (m.removeEntry t a.lock) (.lookUp t (a.identifier m)))
  | closed {a} : a.table = none → Acts me now m (.discard a) (finish m .closed)
  -- Checks.
  | check {e c c'} : c.Reads me m e.lock (.more c') →
      Acts me now m (.checking e c) (moveTo m (.checking e c'))
  | listTables {e} : Acts me now m (.checking e .listTables) (moveTo (m.retainAll m.liveTables)
      (.checking e (.listLocks m.liveTables m.liveTables [])))
  | listed {e kept locks} : Acts me now m (.checking e (.listLocks [] kept locks))
      (moveTo (m.forgoAll kept) (.checking e (.readOwner locks)))
  | pass {a left c} : c.Reads me m a.lock .passed →
      Acts me now m (.checking (.attempt a left) c) (moveTo m (.spend a left))
  | clear {l c} : c.Reads me m l .passed →
      Acts me now m (.checking (.plain l) c) (finish m .done)
  | cycle {e} : (m.lock e.lock).latch = none → Acts me now m (.checking e .report)
      ((finish (m.forgoAll e.tables) (.refused (.deadlock (m.lock e.lock).identifier))).emit
        (.deadlock (m.lock e.lock).identifier (m.lock e.lock).mutex.owner))
  -- Waits.
  | acquire {e d x} : (m.lock e.lock).latch = none → (m.lock e.lock).mutex.take? me = some x →
      Acts me now m (.waiting e d .enter) (e.conclude (m.setMutex e.lock x) .acquired)
  | enter {e d} : (m.lock e.lock).latch = none → (m.lock e.lock).mutex.take? me = none →
      Acts me now m (.waiting e d .enter) (moveTo
        ((m.setMutex e.lock ((m.lock e.lock).mutex.enqueue me)).setLatch e.lock (some me))
        (.waiting e d .checkFlag))
  | heed {e d} : m.isInterrupted me → Acts me now m (.waiting e d .checkFlag)
      (e.conclude (e.quit me (m.clearInterrupt me)) .interrupted)
  | drowse {e d} : m.isInterrupted me = false →
      Acts me now m (.waiting e d .checkFlag) (moveTo m (.waiting e d .doze))
  | timeOut {e} {d : Option Nat} : d.any (· ≤ now) →
      Acts me now m (.waiting e d .doze) (e.conclude (e.quit me m) .timedOut)
  | sleep {e} {d : Option Nat} : d.any (· ≤ now) = false → Acts me now m (.waiting e d .doze)
      (moveTo ((m.sleep e.lock me).setLatch e.lock none) (.waiting e d .asleep))
  | grab {e d x} : (m.lock e.lock).latch = none → me ∉ (m.lock e.lock).sleepers →
      (m.lock e.lock).mutex.take? me = some x →
      Acts me now m (.waiting e d .asleep) (e.conclude (m.setMutex e.lock (x.leave me)) .acquired)
  | rise {e d} : (m.lock e.lock).latch = none → me ∉ (m.lock e.lock).sleepers →
      (m.lock e.lock).mutex.take? me = none →
      Acts me now m (.waiting e d .asleep)
        (moveTo (m.setLatch e.lock (some me)) (.waiting e d .checkFlag))
  -- Releases.
  | refuse {g} : (m.lock g.lock).latch = none → (m.lock g.lock).mutex.release? me = none →
      Acts me now m (.releasing g .handle .unlock)
        (finish (m.forgo g.table) (.refused (.notHeld (m.lock g.lock).identifier)))
  | refuseGuard {g} : (m.lock g.lock).latch = none →
      (m.lock g.lock).mutex.release? me = none →
      Acts me now m (.releasing g .guard .unlock)
        ((finish (m.forgo g.table) .released).emit (.guardNotReleased (m.lock g.lock).identifier
          (.notHeld (m.lock g.lock).identifier)))
  | unlock {g who x} : (m.lock g.lock).latch = none →
      (m.lock g.lock).mutex.release? me = some x → x.isLocked →
      Acts me now m (.releasing g who .unlock)
        (moveTo (m.setMutex g.lock x) (.releasing g who .probe))
  | unlockLast {g who x} : (m.lock g.lock).latch = none →
      (m.lock g.lock).mutex.release? me = some x → x.isLocked = false →
      Acts me now m (.releasing g who .unlock)
        (moveTo (m.setMutex g.lock x) (.releasing g who .notify))
  | notify {g who} : Acts me now m (.releasing g who .notify)
      (moveTo (m.notifyAll g.lock) (.releasing g who .probe))
  | probe {g who x} : (m.lock g.lock).latch = none → (m.lock g.lock).mutex.take? me = some x →
      Acts me now m (.releasing g who .probe)
        (moveTo (m.setMutex g.lock x) (.releasing g who .count))
  | yield {g who} : (m.lock g.lock).latch = none → (m.lock g.lock).mutex.take? me = none →
      Acts me now m (.releasing g who .probe) (finish (m.forgo g.table) .released)
  | alone {g who} : (m.lock g.lock).latch = none → (m.lock g.lock).mutex.holdsOf me = 1 →
      Acts me now m (.releasing g who .count) (moveTo m (.releasing g who .close))
  | inUse {g who} : (m.lock g.lock).latch = none → (m.lock g.lock).mutex.holdsOf me ≠ 1 →
      Acts me now m (.releasing g who .count) (moveTo m (.releasing g who .unprobe))
  | close {g who} : Acts me now m (.releasing g who .close)
      (moveTo (m.close g.lock) (.releasing g who .remove))
  | remove {g who} : (m.table g.table).holds (m.lock g.lock).identifier g.lock →
      Acts me now m (.releasing g who .remove)
        ((moveTo (m.removeEntry g.table g.lock) (.releasing g who .unprobe)).emit
          (.entryDisposed (m.lock g.lock).identifier))
  | replaced {g who} : (m.table g.table).holds (m.lock g.lock).identifier g.lock = false →
      Acts me now m (.releasing g who .remove)
        (moveTo (m.removeEntry g.table g.lock) (.releasing g who .unprobe))
  | unprobe {g who x} : (m.lock g.lock).latch = none →
      (m.lock g.lock).mutex.release? me = some x → x.isLocked →
      Acts me now m (.releasing g who .unprobe)
        (finish ((m.setMutex g.lock x).forgo g.table) .released)
  | unprobeLast {g who x} : (m.lock g.lock).latch = none →
      (m.lock g.lock).mutex.release? me = some x → x.isLocked = false →
      Acts me now m (.releasing g who .unprobe)
        (moveTo (m.setMutex g.lock x) (.releasing g who .notifyProbe))
  | unprobeFails {g who} : (m.lock g.lock).latch = none →
      (m.lock g.lock).mutex.release? me = none →
      Acts me now m (.releasing g who .unprobe) ((finish (m.forgo g.table) .released).emit
        (.probeNotHeld (m.lock g.lock).identifier))
  | disposed {g who} : Acts me now m (.releasing g who .notifyProbe)
      (finish ((m.notifyAll g.lock).forgo g.table) .released)
  -- Locks by themselves.
  | give {l named x} : (m.lock l).latch = none → (m.lock l).mutex.release? me = some x →
      x.isLocked → Acts me now m (.unlocking l named) (finish (m.setMutex l x) .released)
  | giveLast {l named x} : (m.lock l).latch = none → (m.lock l).mutex.release? me = some x →
      x.isLocked = false →
      Acts me now m (.unlocking l named) (moveTo (m.setMutex l x) (.notifying l))
  | notHeld {l} : (m.lock l).latch = none → (m.lock l).mutex.release? me = none →
      Acts me now m (.unlocking l true) (finish m (.refused (.notHeld (m.lock l).identifier)))
  | notOwner {l} : (m.lock l).latch = none → (m.lock l).mutex.release? me = none →
      Acts me now m (.unlocking l false) (finish m .notOwner)
  | given {l} : Acts me now m (.notifying l) (finish (m.notifyAll l) .released)
  -- Interrupts.
  | raise {u} : Acts me now m (.interrupting u .raise)
      (moveTo (m.interrupt u) (.interrupting u .listTables))
  | seek {u} : Acts me now m (.interrupting u .listTables)
      (moveTo (m.retainAll m.liveTables) (.interrupting u (.listLocks m.liveTables)))
  | requested {u} : Acts me now m (.interrupting u (.listLocks []))
      ((finish m .done).emit (.interruptRequested u))
  | listLocks {u t todo} : Acts me now m (.interrupting u (.listLocks (t :: todo)))
      (moveTo m (.interrupting u (.inspect t (m.table t).locks todo)))
  | inspected {u t todo} : Acts me now m (.interrupting u (.inspect t [] todo))
      (moveTo (m.forgo t) (.interrupting u (.listLocks todo)))
  | spot {u t l ls todo} : (m.lock l).latch = none → u ∈ (m.lock l).mutex.waiters →
      Acts me now m (.interrupting u (.inspect t (l :: ls) todo))
        (moveTo m (.interrupting u (.wake t l ls todo)))
  | passOver {u t l ls todo} : (m.lock l).latch = none → u ∉ (m.lock l).mutex.waiters →
      Acts me now m (.interrupting u (.inspect t (l :: ls) todo))
        (moveTo m (.interrupting u (.inspect t ls todo)))
  | wake {u t l ls todo} : (m.lock l).latch = none →
      Acts me now m (.interrupting u (.wake t l ls todo))
        (moveTo (m.notifyAll l) (.interrupting u (.inspect t ls todo)))
  -- Calls that are over after one action.
  | tried {l x} : (m.lock l).latch = none → (m.lock l).mutex.take? me = some x →
      Acts me now m (.acting (.tryLock l)) (finish (m.setMutex l x) (.tried true))
  | triedInVain {l} : (m.lock l).latch = none → (m.lock l).mutex.take? me = none →
      Acts me now m (.acting (.tryLock l)) (finish m (.tried false))
  | cleared {u} : Acts me now m (.acting (.clearInterrupt u))
      (finish (m.clearInterrupt u) (.cleared (m.isInterrupted u)))
  | woken {l} : (m.lock l).latch = none →
      Acts me now m (.acting (.wake l)) (finish (m.notifyAll l) .done)
  | closeRaw {l} : Acts me now m (.acting (.close l)) (finish (m.close l) .done)
  | makeTable {policy} : Acts me now m (.acting (.makeTable policy false))
      (finish (m.addTable policy) (.tableMade m.tables.fresh))
  | makeUnlimited {policy} : Acts me now m (.acting (.makeTable policy true))
      ((finish (m.addTable policy) (.tableMade m.tables.fresh)).emit .unboundedTable)
  | makeLock {i} : Acts me now m (.acting (.makeLock i))
      (finish (m.addLock i) (.lockMade m.locks.fresh))
  | retain {t} : Acts me now m (.acting (.retain t)) (finish (m.retain t) .done)
  | forgo {t} : Acts me now m (.acting (.forgo t)) (finish (m.forgo t) .done)

section
variable {me : ThreadId} {now : Nat} {m : Memory} {p : Phase} {st : Step}

/-! ## Every action is one of these -/

theorem lookUp_acts (t : TableId) (i : String) :
    (Phase.lookUp t i).Acts me now m (lookUp m t i) := by
  unfold lookUp
  split
  · next hf => exact .found hf
  · next hf => exact .absent hf

theorem insert_acts (t : TableId) (i : String) :
    (Phase.insert t i).Acts me now m (insert m t i) := by
  unfold insert
  split
  · next hf => exact .foundLate hf
  · next hf => exact .create hf

namespace Attempt

variable {a : Attempt}

theorem tryTake_acts (h : a.tryTake me m = some st) : (Phase.tryTake a).Acts me now m st := by
  obtain ⟨hl, rfl⟩ := Memory.critical_eq_some_iff.mp h
  split
  · next hx => exact .take hl hx
  · next hx => exact .miss hl hx

theorem readQueue_acts (h : a.readQueue m = some st) : (Phase.readQueue a).Acts me now m st := by
  obtain ⟨hl, rfl⟩ := Memory.critical_eq_some_iff.mp h
  dsimp only
  split
  · next hq => exact .queueFull hl hq
  · next hq => exact .room hl (Bool.eq_false_iff.mpr hq)

theorem spend_acts (left : Option Nat) :
    (Phase.spend a left).Acts me now m (a.spend now m left) := by
  unfold spend
  split
  · next hl => rw [hl]; exact .spent
  · next hl => exact .spend hl

theorem readClosed_acts : (Phase.readClosed a).Acts me now m (a.readClosed m) := by
  unfold readClosed
  split
  · next hc => exact .shut hc
  · next hc =>
    have hc : (m.lock a.lock).closed = false := Bool.eq_false_iff.mpr hc
    split
    · next ht => exact .grant hc ht
    · next ht => exact .live hc ht

theorem backOut_acts (h : a.backOut me m = some st) : (Phase.backOut a).Acts me now m st := by
  obtain ⟨hl, rfl⟩ := Memory.critical_eq_some_iff.mp h
  split
  · next x hx =>
    by_cases hk : x.isLocked
    · rw [if_pos hk]; exact .backOut hl hx hk
    · rw [if_neg hk]; exact .backOutLast hl hx (Bool.eq_false_iff.mpr hk)
  · next hx => exact .backOutFails hl hx

theorem discard_acts : (Phase.discard a).Acts me now m (a.discard m) := by
  unfold discard
  split
  · next ht => exact .discard ht
  · next ht => exact .closed ht

end Attempt

/-- A check reads, or it takes or drops the references to the live tables. -/
theorem Check.next_reads {c : Check} {target : LockId} {m' : Memory} {v : Verdict}
    (h : c.next me m target = some (m', v)) : m' = m ∧ c.Reads me m target v ∨
      (c = .listTables ∧ m' = m.retainAll m.liveTables ∧
        v = .more (.listLocks m.liveTables m.liveTables [])) ∨
      ∃ kept locks, c = .listLocks [] kept locks ∧ m' = m.forgoAll kept ∧
        v = .more (.readOwner locks) := by
  cases c with
  | isLocked =>
    simp only [next] at h
    obtain ⟨hl, he⟩ := Memory.critical_eq_some_iff.mp h
    split at he <;> cases he
    · next hk => exact .inl ⟨rfl, .locked hl hk⟩
    · next hk => exact .inl ⟨rfl, .unlocked hl (Bool.eq_false_iff.mpr hk)⟩
  | isMine =>
    simp only [next] at h
    obtain ⟨hl, he⟩ := Memory.critical_eq_some_iff.mp h
    split at he <;> cases he
    · next hk => exact .inl ⟨rfl, .mine hl hk⟩
    · next hk => exact .inl ⟨rfl, .others hl (Bool.eq_false_iff.mpr hk)⟩
  | listTables => cases h; exact .inr (.inl ⟨rfl, rfl, rfl⟩)
  | listLocks todo kept locks =>
    cases todo with
    | nil => cases h; exact .inr (.inr ⟨kept, locks, rfl, rfl, rfl⟩)
    | cons => cases h; exact .inl ⟨rfl, .listLocks⟩
  | readOwner locks =>
    simp only [next] at h
    obtain ⟨hl, he⟩ := Memory.critical_eq_some_iff.mp h
    split at he
    · next ho => cases he; exact .inl ⟨rfl, .ownerless hl ho⟩
    · next o ho =>
      split at he <;> cases he
      · next hme => subst hme; exact .inl ⟨rfl, .own hl ho⟩
      · next hne => exact .inl ⟨rfl, .owner hl ho hne⟩
  | search goal locks s =>
    simp only [next, Option.some.injEq, Prod.mk.injEq] at h
    obtain ⟨rfl, he⟩ := h
    split at he
    · next hp =>
      split at he <;> subst he
      · next hf => exact .inl ⟨rfl, .found hp hf⟩
      · next hf => exact .inl ⟨rfl, .missed hp hf⟩
    · next hp => subst he; exact .inl ⟨rfl, .visit hp⟩
  | scan goal locks s holder todo waiters =>
    cases todo with
    | nil => cases h; exact .inl ⟨rfl, .scanned⟩
    | cons l todo =>
      simp only [next] at h
      obtain ⟨hl, he⟩ := Memory.critical_eq_some_iff.mp h
      split at he <;> cases he
      · next hk => exact .inl ⟨rfl, .held hl hk⟩
      · next hk => exact .inl ⟨rfl, .skipped hl (Bool.eq_false_iff.mpr hk)⟩
  | collect =>
    simp only [next] at h
    obtain ⟨hl, he⟩ := Memory.critical_eq_some_iff.mp h
    cases he
    exact .inl ⟨rfl, .collected hl⟩
  | report =>
    simp only [next] at h
    obtain ⟨hl, he⟩ := Memory.critical_eq_some_iff.mp h
    cases he
    exact .inl ⟨rfl, .report hl⟩

namespace Errand

variable {e : Errand}

theorem checking_acts {c : Check}
    (h : (c.next me m e.lock).map (fun (m, v) => e.judge m v) = some st) :
    (Phase.checking e c).Acts me now m st := by
  obtain ⟨⟨m', v⟩, hv, rfl⟩ := Option.map_eq_some_iff.mp h
  rcases Check.next_reads hv with ⟨rfl, hr⟩ | ⟨rfl, rfl, rfl⟩ | ⟨kept, locks, rfl, rfl, rfl⟩
  · cases v with
    | more => exact .check hr
    | passed =>
      cases e with
      | attempt => exact .pass hr
      | plain => exact .clear hr
    | cycle => cases hr with | report hl => exact .cycle hl
  · exact .listTables
  · exact .listed

theorem wait_acts {d : Option Nat} {s : WaitStage} (h : e.wait me now m d s = some st) :
    (Phase.waiting e d s).Acts me now m st := by
  cases s with
  | enter =>
    simp only [wait] at h
    obtain ⟨hl, rfl⟩ := Memory.critical_eq_some_iff.mp h
    split
    · next hx => exact .acquire hl hx
    · next hx => exact .enter hl hx
  | checkFlag =>
    simp only [wait] at h
    split at h <;> cases h
    · next hi => exact .heed hi
    · next hi => exact .drowse (Bool.eq_false_iff.mpr hi)
  | doze =>
    simp only [wait] at h
    split at h <;> cases h
    · next hd => exact .timeOut hd
    · next hd => exact .sleep (Bool.eq_false_iff.mpr hd)
  | asleep =>
    simp only [wait] at h
    split at h
    · cases h
    · next hs =>
      obtain ⟨hl, rfl⟩ := Memory.critical_eq_some_iff.mp h
      split
      · next hx => exact .grab hl hs hx
      · next hx => exact .rise hl hs hx

end Errand

namespace Releaser

variable {g : Handle} {who : Releaser}

theorem conclude_ok (m : Memory) :
    who.conclude g m (.ok ()) = finish (m.forgo g.table) .released := by
  cases who <;> rfl

theorem unlock_acts (h : who.release me m g .unlock = some st) :
    (Phase.releasing g who .unlock).Acts me now m st := by
  simp only [release] at h
  obtain ⟨hl, rfl⟩ := Memory.critical_eq_some_iff.mp h
  split
  · next hx =>
    cases who with
    | handle => exact .refuse hl hx
    | guard => exact .refuseGuard hl hx
  · next x hx =>
    by_cases hk : x.isLocked
    · rw [if_pos hk]; exact .unlock hl hx hk
    · rw [if_neg hk]; exact .unlockLast hl hx (Bool.eq_false_iff.mpr hk)

theorem unprobe_acts (h : who.release me m g .unprobe = some st) :
    (Phase.releasing g who .unprobe).Acts me now m st := by
  simp only [release, conclude_ok] at h
  obtain ⟨hl, rfl⟩ := Memory.critical_eq_some_iff.mp h
  split
  · next hx => exact .unprobeFails hl hx
  · next x hx =>
    by_cases hk : x.isLocked
    · rw [if_pos hk]; exact .unprobe hl hx hk
    · rw [if_neg hk]; exact .unprobeLast hl hx (Bool.eq_false_iff.mpr hk)

theorem release_acts {s : ReleaseStage} (h : who.release me m g s = some st) :
    (Phase.releasing g who s).Acts me now m st := by
  cases s with
  | unlock => exact unlock_acts h
  | notify => cases h; exact .notify
  | probe =>
    simp only [release, conclude_ok] at h
    obtain ⟨hl, rfl⟩ := Memory.critical_eq_some_iff.mp h
    split
    · next hx => exact .yield hl hx
    · next hx => exact .probe hl hx
  | count =>
    simp only [release] at h
    obtain ⟨hl, rfl⟩ := Memory.critical_eq_some_iff.mp h
    split
    · next h1 => exact .alone hl h1
    · next h1 => exact .inUse hl h1
  | close => cases h; exact .close
  | remove =>
    simp only [release, Option.some.injEq] at h
    obtain rfl := h
    split
    · next hr => exact .remove hr
    · next hr => exact .replaced (Bool.eq_false_iff.mpr hr)
  | unprobe => exact unprobe_acts h
  | notifyProbe =>
    simp only [release, conclude_ok, Option.some.injEq] at h
    obtain rfl := h
    exact .disposed

end Releaser

theorem unlock_acts {l : LockId} {named : Bool} (h : unlock me m l named = some st) :
    (Phase.unlocking l named).Acts me now m st := by
  obtain ⟨hl, rfl⟩ := Memory.critical_eq_some_iff.mp h
  split
  · next hx =>
    cases named with
    | true => exact .notHeld hl hx
    | false => exact .notOwner hl hx
  · next x hx =>
    by_cases hk : x.isLocked
    · rw [if_pos hk]; exact .give hl hx hk
    · rw [if_neg hk]; exact .giveLast hl hx (Bool.eq_false_iff.mpr hk)

theorem interrupt_acts {u : ThreadId} {s : InterruptStage} (h : interrupt m u s = some st) :
    (Phase.interrupting u s).Acts me now m st := by
  cases s with
  | raise => cases h; exact .raise
  | listTables => cases h; exact .seek
  | listLocks todo =>
    cases todo with
    | nil => cases h; exact .requested
    | cons => cases h; exact .listLocks
  | inspect t ls todo =>
    cases ls with
    | nil => cases h; exact .inspected
    | cons l ls =>
      simp only [interrupt] at h
      obtain ⟨hl, rfl⟩ := Memory.critical_eq_some_iff.mp h
      split
      · next hu => exact .spot hl hu
      · next hu => exact .passOver hl hu
  | wake t l ls todo =>
    simp only [interrupt] at h
    obtain ⟨hl, rfl⟩ := Memory.critical_eq_some_iff.mp h
    exact .wake hl

theorem Action.run_acts {b : Action} (h : b.run me m = some st) :
    (Phase.acting b).Acts me now m st := by
  cases b with
  | tryLock l =>
    simp only [run] at h
    obtain ⟨hl, rfl⟩ := Memory.critical_eq_some_iff.mp h
    split
    · next hx => exact .tried hl hx
    · next hx => exact .triedInVain hl hx
  | clearInterrupt => cases h; exact .cleared
  | wake l =>
    simp only [run] at h
    obtain ⟨hl, rfl⟩ := Memory.critical_eq_some_iff.mp h
    exact .woken hl
  | close => cases h; exact .closeRaw
  | makeTable policy unlimited =>
    cases unlimited with
    | true => cases h; exact .makeUnlimited
    | false => cases h; exact .makeTable
  | makeLock => cases h; exact .makeLock
  | retain => cases h; exact .retain
  | forgo => cases h; exact .forgo

/-- **Every action is one that is listed.** -/
theorem Phase.next_acts (h : p.next me now m = some st) : p.Acts me now m st := by
  cases p with
  | idle => cases h
  | lookUp t i => cases h; exact lookUp_acts t i
  | insert t i => cases h; exact insert_acts t i
  | tryTake => exact Attempt.tryTake_acts h
  | readQueue => exact Attempt.readQueue_acts h
  | checking => exact Errand.checking_acts h
  | spend a left => cases h; exact a.spend_acts left
  | waiting => exact Errand.wait_acts h
  | readClosed => cases h; exact Attempt.readClosed_acts
  | backOut => exact Attempt.backOut_acts h
  | notifyBackOut => cases h; exact .backedOut
  | discard => cases h; exact Attempt.discard_acts
  | releasing => exact Releaser.release_acts h
  | unlocking => exact unlock_acts h
  | notifying => cases h; exact .given
  | interrupting => exact interrupt_acts h
  | acting => exact Action.run_acts h

end

end KeyedLocks
