import KeyedLocks.Proofs.Hindrance

/-!
# Acquisitions that nobody disturbs

When nobody else moves, the state in which a thread asks for an identifier says all about the answer
(`System.obtains_alone`). If the lock is free, the thread's own or not there yet, the thread gets
it, with one hold more. Otherwise `Attempt.hindrance` names the reason for which it is refused,
after as many waits as that takes, and the memory is as it was. Without a reason it never returns.

That a call returns is proved for the phase, the memory and the time it has come to (`Delivers`).
-/

namespace KeyedLocks

namespace System

variable {s s' : System} {t : ThreadId} {a : Attempt} {M : Memory} {o : Outcome} {k : Nat}

/-! ## Refusals -/

/-- An undisturbed acquisition that returns is refused for the reason there is. -/
theorem Finishes.refused (h : Finishes t s k o s') (hk : Hindered t (M.lock a.lock))
    (hs : Waypoint t M a 0 (s.phase t) s.memory) :
    ∃ e, a.hindrance t M = some e ∧ o = .refused e ∧ k = e.waits ∧
      s'.memory = (M.refusing t e).forgoAll a.table.toList := by
  rw [← Nat.zero_add k]
  refine h.induct (P := fun j s => Waypoint t M a j (s.phase t) s.memory) (Q := fun j o s' =>
    ∃ e, a.hindrance t M = some e ∧ o = .refused e ∧ j = e.waits ∧
      s'.memory = (M.refusing t e).forgoAll a.table.toList) id ?_ ?_ hs
  · intro j s l hs ha
    obtain ⟨e, d, hp, rfl, ht⟩ := asleepOn_eq_some_iff.mp ha
    show Waypoint t M a j (s.phase t) _
    rw [hp] at hs ⊢
    exact hs.rouse hk ht
  · intro j s st hs hst
    rcases hs.next hk hst with ⟨hs', hn⟩ | ⟨e, he, hj, hm, hi, hn⟩
    · refine .inl ⟨?_, hn⟩
      rw [phase_after]
      exact hs'
    · exact .inr ⟨hi, fun o ho => ⟨e, he, hn o ho, hj, hm⟩⟩

/-! ## That it returns -/

section
variable {e : Errand} {c : Check} {notes : List Note}

theorem beginsWait_of_checking (hp : s.phase t = .checking e c) :
    (s.phase t).beginsWait = false := by
  rw [hp]
  rfl

theorem Checks.canFinish (h : Checks t e s s' notes) (hf : CanFinish t s' k o) :
    CanFinish t s k o := by
  induction h with
  | last hp hact =>
    obtain ⟨st, hst, rfl, rfl⟩ := act_eq_some_iff.mp hact
    exact hf.of_act hst (beginsWait_of_checking hp)
  | more hp hact _ _ ih =>
    obtain ⟨st, hst, rfl, rfl⟩ := act_eq_some_iff.mp hact
    exact (ih hf).of_act hst (beginsWait_of_checking hp)

theorem Checks.canFinish_of_returned (h : Checks t e s s' notes) (ho : .returned o ∈ notes) :
    CanFinish t s 0 o := by
  induction h with
  | last hp hact =>
    obtain ⟨st, hst, rfl, rfl⟩ := act_eq_some_iff.mp hact
    exact .of_last hst (beginsWait_of_checking hp) ho
  | more hp hact _ _ ih =>
    obtain ⟨st, hst, rfl, rfl⟩ := act_eq_some_iff.mp hact
    rcases List.mem_append.mp ho with ho | ho
    · exact .of_last hst (beginsWait_of_checking hp) ho
    · exact (ih ho).of_act hst (beginsWait_of_checking hp)

end

end System

/-- From phase `p`, with memory `m` at the time `now`, thread `t` can go on by itself until it
returns `o`, after `k` waits. -/
def Delivers (t : ThreadId) (p : Phase) (m : Memory) (now k : Nat) (o : Outcome) : Prop :=
  ∀ s : System, s.phase t = p → s.memory = m → s.now = now → System.CanFinish t s k o

namespace Delivers

variable {t : ThreadId} {p : Phase} {m : Memory} {now k : Nat} {o : Outcome} {st : Step}
  {e : Errand} {a : Attempt} {left d : Option Nat}

theorem of_act (hst : p.next t now m = some st) (hb : p.beginsWait = false)
    (h : Delivers t st.phase st.memory now k o) : Delivers t p m now k o := by
  rintro s rfl rfl rfl
  exact (h _ (System.phase_after ..) rfl rfl).of_act hst hb

theorem of_enter (hst : p.next t now m = some st) (hb : p.beginsWait)
    (h : Delivers t st.phase st.memory now k o) : Delivers t p m now (k + 1) o := by
  rintro s rfl rfl rfl
  exact (h _ (System.phase_after ..) rfl rfl).of_enter hst hb

theorem of_last (hst : p.next t now m = some st) (hb : p.beginsWait = false)
    (ho : .returned o ∈ st.notes) : Delivers t p m now 0 o := by
  rintro s rfl rfl rfl
  exact .of_last hst hb ho

theorem of_sleep (now' : Nat) (hle : now ≤ now') (ht : t ∈ (m.lock e.lock).sleepers)
    (h : Delivers t (.waiting e d .asleep) (m.rouse e.lock t) now' k o) :
    Delivers t (.waiting e d .asleep) m now k o := by
  rintro s hp rfl rfl
  refine .of_tick (now' - s.now) ?_
  have hon : (s.tick (now' - s.now)).asleepOn t = some e.lock :=
    System.asleepOn_eq_some_iff.mpr ⟨e, d, hp, rfl, ht⟩
  exact .of_rouse (System.rouse_eq_some_iff.mpr ⟨_, hon, rfl⟩)
    (h _ hp rfl (Nat.add_sub_cancel' hle))

section
variable (hl : ∀ l ∈ e.lock :: m.liveLocks, (m.lock l).latch = none)
include hl

theorem of_cycle (hd : m.Deadlocked t e.lock) : Delivers t (.checking e .isLocked) m now 0
    (.refused (.deadlock (m.lock e.lock).identifier)) := by
  rintro s hp rfl rfl
  obtain ⟨s', notes, hc⟩ := System.exists_checks hp hl
  refine hc.canFinish_of_returned ?_
  rw [((hc.answers hp).deadlock hd).2.2]
  exact .tail _ (.head _)

end

theorem of_passed (hl : ∀ l ∈ a.lock :: m.liveLocks, (m.lock l).latch = none)
    (hd : ¬ m.Deadlocked t a.lock) (h : Delivers t (.spend a left) m now k o) :
    Delivers t (.checking (.attempt a left) .isLocked) m now k o := by
  rintro s hp rfl rfl
  obtain ⟨s', notes, hc⟩ := System.exists_checks hp hl
  obtain ⟨-, hpass, hothers⟩ := hc.answers hp
  obtain ⟨hm, hspend, -⟩ := hpass hd
  exact hc.canFinish (h s' (hspend a left rfl).1 hm hothers.1)

end Delivers

theorem deadlineAfter_of_isSome {now : Nat} {d : Duration} (h : (deadlineAfter now d).isSome) :
    deadlineAfter now d = some (now + d.nanos) := by
  simp only [deadlineAfter] at h ⊢
  split at h
  · next hlt => exact if_pos hlt
  · cases h

namespace Attempt

variable {a : Attempt} {t : ThreadId} {M : Memory} {now k n : Nat} {o : Outcome}
  {left : Option Nat}

theorem next_spend (a : Attempt) (t : ThreadId) (M : Memory) (now : Nat) (left : Option Nat) :
    (Phase.spend a left).next t now M = some (a.spend now M left) := rfl

theorem delivers_spent (hn : a.policy.attempts = some n) : Delivers t (.spend a (some 0)) M now 0
    (.refused (.attemptsExceeded (a.identifier M) n)) := by
  refine .of_last (next_spend ..) rfl ?_
  rw [spend, if_pos rfl, hn]
  exact .tail _ (.head _)

section
variable (hk : Hindered t (M.lock a.lock)) (hl : (M.lock a.lock).latch = none)
include hk hl

theorem delivers_interrupted {d : Option Nat} (hi : M.isInterrupted t) :
    Delivers t (.waiting (.attempt a left) d .enter) M now 1
      (.refused (.interrupted (a.identifier M))) := by
  refine .of_enter (next_enter hk hl) rfl (.of_last (next_checkFlag hk hl) rfl ?_)
  rw [if_pos hi]
  exact .tail _ (.head _)

/-- Without an interrupt a wait lasts until its time is over, and then the thread checks again. -/
theorem delivers_timedOut {D : Nat} (hi : M.isInterrupted t = false) (hle : now ≤ D)
    (h : Delivers t (.checking (.attempt a left) .isLocked) M D k o) :
    Delivers t (.waiting (.attempt a left) (some D) .enter) M now (k + 1) o := by
  have hflag (now : Nat) : (Phase.waiting (.attempt a left) (some D) .checkFlag).next t now
      (M.queued a.lock t) = some (.moveTo (M.queued a.lock t) (.waiting (.attempt a left) (some D)
        .doze)) := by
    rw [next_checkFlag hk hl, if_neg (Bool.eq_false_iff.mp hi)]
  have hover :
      Delivers t (.waiting (.attempt a left) (some D) .doze) (M.queued a.lock t) D k o := by
    refine .of_act (next_doze hk hl) rfl ?_
    rw [if_pos (by exact decide_eq_true (Nat.le_refl D))]
    exact h
  refine .of_enter (next_enter hk hl) rfl (.of_act (hflag now) rfl ?_)
  rcases Nat.eq_or_lt_of_le hle with rfl | hlt
  · exact hover
  · -- The thread falls asleep, is roused at the end of its time, and leaves.
    refine .of_act (next_doze hk hl) rfl ?_
    rw [if_neg (by simpa using hlt)]
    have hsleeps : t ∈
        ((M.dozing a.lock t ((M.lock a.lock).sleepers ++ [t])).lock a.lock).sleepers := by
      rw [Memory.dozing, Memory.lock_put_self]
      exact List.mem_append_right _ (List.mem_singleton_self t)
    refine .of_sleep (e := .attempt a left) D hle hsleeps ?_
    show Delivers t _ ((M.dozing a.lock t _).rouse a.lock t) D k o
    rw [rouse_dozing hk]
    exact .of_act (next_asleep hk) rfl (.of_act (hflag D) rfl hover)

end

/-- Each of the next `r` waits of an acquisition has an end, if each of them lasts as long as it may
and the first begins at `now`. -/
def Ends (a : Attempt) (now r : Nat) : Prop :=
  ∀ j < r, (deadlineAfter (now + j * a.policy.spinTime.nanos) a.policy.spinTime).isSome

instance (a : Attempt) (now r : Nat) : Decidable (a.Ends now r) :=
  inferInstanceAs (Decidable (∀ j < r, _))

theorem Ends.succ {r : Nat} (h : a.Ends now (r + 1)) :
    deadlineAfter now a.policy.spinTime = some (now + a.policy.spinTime.nanos) ∧
      a.Ends (now + a.policy.spinTime.nanos) r := by
  constructor
  · have h0 := h 0 (Nat.succ_pos r)
    rw [Nat.zero_mul, Nat.add_zero] at h0
    exact deadlineAfter_of_isSome h0
  · intro j hj
    have hs := h (j + 1) (Nat.succ_lt_succ hj)
    rwa [Nat.succ_mul, Nat.add_comm (j * _), ← Nat.add_assoc] at hs

theorem delivers_attempts (hk : Hindered t (M.lock a.lock))
    (hl : ∀ l ∈ a.lock :: M.liveLocks, (M.lock l).latch = none) (hd : ¬ M.Deadlocked t a.lock)
    (hi : M.isInterrupted t = false) (hn : a.policy.attempts = some n) :
    ∀ (r : Nat) {now : Nat}, a.Ends now r → Delivers t (.spend a (some r)) M now r
      (.refused (.attemptsExceeded (a.identifier M) n)) := by
  intro r
  induction r with
  | zero => exact fun _ => delivers_spent hn
  | succ r ih =>
    intro now hends
    obtain ⟨hdeadline, hrest⟩ := hends.succ
    have hmore : some (r + 1) ≠ some 0 := nofun
    refine .of_act (next_spend ..) rfl ?_
    rw [spend, if_neg hmore, hdeadline]
    exact delivers_timedOut hk (hl _ (.head _)) hi (Nat.le_add_right ..)
      (.of_passed hl hd (ih hrest))

theorem next_tryTake (hk : Hindered t (M.lock a.lock)) (hl : (M.lock a.lock).latch = none) :
    (Phase.tryTake a).next t now M = some (.moveTo M (.readQueue a)) := by
  show a.tryTake t M = _
  refine Memory.critical_eq_some_iff.mpr ⟨hl, ?_⟩
  rw [hk.taken]

theorem next_tryTake_of_take? {x : Mutex} (hl : (M.lock a.lock).latch = none)
    (hx : (M.lock a.lock).mutex.take? t = some x) : (Phase.tryTake a).next t now M =
      some (.moveTo (M.setMutex a.lock x) (.readClosed a)) := by
  show a.tryTake t M = _
  refine Memory.critical_eq_some_iff.mpr ⟨hl, ?_⟩
  rw [hx]

theorem next_readQueue (hl : (M.lock a.lock).latch = none) : (Phase.readQueue a).next t now M =
    some (if a.policy.queueLimitReached (M.lock a.lock).mutex.queueLength then
      (a.fail M (.tooManyQueued (a.identifier M) (M.lock a.lock).mutex.queueLength
        (a.policy.queueLimit.getD 0))).emit
        (.tooManyQueued (a.identifier M) (M.lock a.lock).mutex.queueLength)
    else .moveTo M (.checking (.attempt a (a.policy.attempts.map (· - 1))) .isLocked)) := by
  show a.readQueue M = _
  exact Memory.critical_eq_some_iff.mpr ⟨hl, rfl⟩

/-- An acquisition that may wait is refused for what stands in the way of its waits. -/
theorem delivers_spend {e : LockError} (hk : Hindered t (M.lock a.lock))
    (hl : ∀ l ∈ a.lock :: M.liveLocks, (M.lock l).latch = none)
    (hr : a.policy.queueLimitReached (M.lock a.lock).mutex.queueLength = false)
    (hd : ¬ M.Deadlocked t a.lock) (he : a.hindrance t M = some e)
    (hends : ∀ i n, e = .attemptsExceeded i n → a.Ends now (n - 1)) :
    Delivers t (.spend a (a.policy.attempts.map (· - 1))) M now e.waits (.refused e) := by
  rw [hindrance_of_room hr, if_neg hd] at he
  by_cases h1 : a.policy.attempts = some 1
  · rw [if_pos h1] at he
    cases he
    rw [h1]
    exact delivers_spent h1
  rw [if_neg h1] at he
  by_cases hi : M.isInterrupted t
  · rw [if_pos hi] at he
    cases he
    have hmore : a.policy.attempts.map (· - 1) ≠ some 0 := by
      intro h0
      obtain ⟨n, hn, h0⟩ := Option.map_eq_some_iff.mp h0
      have hpos := (a.policy.attempts_valid n hn).1
      obtain rfl : n = 1 := by omega
      exact h1 hn
    refine .of_act (next_spend ..) rfl ?_
    rw [spend, if_neg hmore]
    exact delivers_interrupted hk (hl _ (.head _)) hi
  · rw [if_neg hi] at he
    obtain ⟨n, hn, rfl⟩ := Option.map_eq_some_iff.mp he
    rw [hn]
    exact delivers_attempts hk hl hd (Bool.eq_false_iff.mpr hi) hn (n - 1) (hends _ n rfl)

/-- An acquisition in the way of which something stands is refused for that. If the queue is full,
no other lock counts. -/
theorem delivers_of_hindrance {e : LockError} (hk : Hindered t (M.lock a.lock))
    (hfree : (M.lock a.lock).latch = none)
    (hlive : a.policy.queueLimitReached (M.lock a.lock).mutex.queueLength = false →
      ∀ l ∈ M.liveLocks, (M.lock l).latch = none) (he : a.hindrance t M = some e)
    (hends : ∀ i n, e = .attemptsExceeded i n → a.Ends now (n - 1)) :
    Delivers t (.tryTake a) M now e.waits (.refused e) := by
  suffices h : Delivers t (.readQueue a) M now e.waits (.refused e) from
    .of_act (next_tryTake hk hfree) rfl h
  by_cases hfull : a.policy.queueLimitReached (M.lock a.lock).mutex.queueLength
  · obtain ⟨limit, hlimit, hle⟩ := (Option.any_eq_true _ _).mp hfull
    rw [hindrance_of_full hlimit (of_decide_eq_true hle)] at he
    cases he
    refine .of_last (next_readQueue hfree) rfl ?_
    rw [if_pos hfull, hlimit]
    exact .tail _ (.head _)
  · have hroom := Bool.eq_false_iff.mpr hfull
    have hl : ∀ l ∈ a.lock :: M.liveLocks, (M.lock l).latch = none :=
      List.forall_mem_cons.mpr ⟨hfree, hlive hroom⟩
    refine .of_act (next_readQueue hfree) rfl ?_
    rw [if_neg hfull]
    by_cases hd : M.Deadlocked t a.lock
    · rw [hindrance_of_room hroom, if_pos hd] at he
      cases he
      exact .of_cycle hl hd
    · exact .of_passed hl hd (delivers_spend hk hl hroom hd he hends)

end Attempt

/-! ## With a reference to the table -/

namespace Memory

variable {m : Memory} {t : ThreadId} {table : TableId} {l : LockId} {e : LockError}

theorem isAlive_retain (h : m.isAlive table) (j : TableId) :
    (m.retain table).isAlive j = m.isAlive j := by
  unfold isAlive at h ⊢
  rw [table_retain]
  by_cases hj : j = table
  · subst hj
    rw [h, if_pos rfl]
    exact bne_iff_ne.mpr (Nat.succ_ne_zero _)
  · rw [if_neg hj]
    rfl

theorem liveLocks_retain (h : m.isAlive table) : (m.retain table).liveLocks = m.liveLocks := by
  have hlive : (m.retain table).liveTables = m.liveTables := by
    unfold liveTables
    rw [show (m.retain table).isAlive = m.isAlive from funext (isAlive_retain h)]
    rfl
  unfold liveLocks
  rw [hlive]
  simp only [Table.locks, entries_retain]

theorem deadlocked_retain (h : m.isAlive table) :
    (m.retain table).Deadlocked t l ↔ m.Deadlocked t l := by
  unfold Deadlocked snapshot
  rw [liveLocks_retain h]
  rfl

theorem find?_retain (m : Memory) (table : TableId) (i : String) :
    ((m.retain table).table table).find? i = (m.table table).find? i := by
  unfold Table.find?
  rw [entries_retain]

/-- One more reference to a table that has some is nothing to an acquisition. -/
theorem ofEntry_retain (m : Memory) (table : TableId) (l : LockId) :
    Attempt.ofEntry (m.retain table) table l = .ofEntry m table l := by
  unfold Attempt.ofEntry
  rw [table_retain]

theorem hindrance_retain (h : m.isAlive table) (a : Attempt) :
    a.hindrance t (m.retain table) = a.hindrance t m := by
  unfold Attempt.hindrance
  simp only [deadlocked_retain h]
  rfl

theorem refusing_retain (h : m.isAlive table) :
    ((m.retain table).refusing t e).forgoAll [table] = m.refusing t e := by
  have hm : (m.retain table).refusing t e = (m.refusing t e).retain table := by
    unfold refusing
    split <;> rfl
  rw [hm]
  refine forgo_retain ?_
  unfold refusing
  split
  · exact h
  · exact h

end Memory

/-! ## Acquisitions in the way of which nothing stands -/

namespace Memory

variable {m m' : Memory} {t : ThreadId} {table : TableId} {i : String} {l : LockId} {x : Mutex}

/-- `m'` is `m` with a lock `l` for the identifier: the one the table has, or else a new one. -/
inductive Enlists (m : Memory) (table : TableId) (i : String) : Memory → LockId → Prop where
  | registered {l : LockId} : (m.table table).find? i = some l → Enlists m table i m l
  | fresh : (m.table table).find? i = none →
      Enlists m table i (m.addEntry table i) m.locks.fresh

/-- Nothing keeps `t` from the identifier: if there is a lock for it, that is open, and nobody else
has it. -/
def Open (m : Memory) (t : ThreadId) (table : TableId) (i : String) : Prop :=
  ∀ l, (m.table table).find? i = some l →
    (m.lock l).closed = false ∧ ∃ x, (m.lock l).mutex.take? t = some x

theorem lock_addEntry_fresh (m : Memory) (table : TableId) (i : String) :
    (m.addEntry table i).lock m.locks.fresh = { identifier := i } :=
  (m.lock_addLock i _).trans (if_pos rfl)

namespace Enlists

theorem find? (h : m.Enlists table i m' l) : (m'.table table).find? i = some l := by
  cases h with
  | registered hf => exact hf
  | fresh hf =>
    rw [addEntry, table_modifyTable, if_pos rfl]
    show ((m.table table).entries ++ [(i, m.locks.fresh)]).lookup i = _
    rw [List.lookup_append, show (m.table table).entries.lookup i = none from hf]
    simp

theorem mutexes (h : m.Enlists table i m' l) : m'.mutexes = m.mutexes := by
  cases h with
  | registered => rfl
  | fresh => exact mutexes_addEntry ..

theorem interrupted (h : m.Enlists table i m' l) : m'.interrupted = m.interrupted := by
  cases h <;> rfl

theorem ready (h : m.Enlists table i m' l) (ho : m.Open t table i) :
    (m'.lock l).closed = false ∧ ∃ x, (m'.lock l).mutex.take? t = some x := by
  cases h with
  | registered hf => exact ho l hf
  | fresh =>
    rw [lock_addEntry_fresh]
    exact ⟨rfl, _, rfl⟩

theorem latch (h : m.Enlists table i m' l)
    (hl : ∀ l, (m.table table).find? i = some l → (m.lock l).latch = none) :
    (m'.lock l).latch = none := by
  cases h with
  | registered hf => exact hl l hf
  | fresh => rw [lock_addEntry_fresh]

end Enlists

/-- Thread `t` got lock `l` for the identifier, with a reference to the table, and nothing else
happened: it has one hold more, the lock is registered and open, and every flag is as it was. -/
structure Grants (m : Memory) (t : ThreadId) (table : TableId) (i : String) (l : LockId)
    (m' : Memory) : Prop where
  change : ∃ m₁ x, (m.retain table).Enlists table i m₁ l ∧ (m₁.lock l).mutex.take? t = some x ∧
    m' = m₁.setMutex l x
  found : (m'.table table).find? i = some l
  unclosed : (m'.lock l).closed = false
  held : ∀ u j, (m'.lock j).mutex.holdsOf u =
    (m.lock j).mutex.holdsOf u + if u = t ∧ j = l then 1 else 0
  interrupted : m'.interrupted = m.interrupted

theorem Grants.eq_of_find? {j : LockId} (h : m.Grants t table i l m')
    (hf : (m.table table).find? i = some j) : l = j := by
  rw [← find?_retain] at hf
  obtain ⟨m₁, x, he, -⟩ := h.change
  cases he with
  | registered hf' => exact Option.some.inj (hf'.symm.trans hf)
  | fresh hn =>
    rw [hn] at hf
    cases hf

theorem grants (hw : m.Wf) (ho : (m.retain table).Open t table i)
    (h : (m.retain table).Enlists table i m' l) (hx : (m'.lock l).mutex.take? t = some x) :
    m.Grants t table i l (m'.setMutex l x) := by
  refine ⟨⟨m', x, h, hx, rfl⟩, h.find?, ?_, fun u j => ?_, h.interrupted⟩
  · rw [setMutex, lock_modifyLock, if_pos rfl]
    exact (h.ready ho).1
  · have hm : m'.mutexes = m.mutexes := h.mutexes
    have hlock : (m'.lock l).mutex = (m.lock l).mutex := congrFun hm l
    show ((m'.setMutex l x).mutexes j).holdsOf u = (m.mutexes j).holdsOf u + _
    rw [mutexes_setMutex, hm, Function.update_apply]
    by_cases hj : j = l
    · subst hj
      rw [if_pos rfl, Mutex.holdsOf_of_take? (hw j) (hlock ▸ hx)]
      by_cases hu : u = t
      · rw [if_pos hu, if_pos ⟨hu, rfl⟩]
        rfl
      · rw [if_neg hu, if_neg fun h => hu h.1]
        rfl
    · rw [if_neg hj, if_neg fun h => hj h.2]
      rfl

end Memory

/-- Where an acquisition can be that nothing stands in the way of, with the memory there; `M` is the
memory it began with. -/
inductive Granting (t : ThreadId) (M : Memory) (table : TableId) (i : String) :
    Phase → Memory → Prop where
  | lookUp : Granting t M table i (.lookUp table i) M
  | insert : (M.table table).find? i = none → Granting t M table i (.insert table i) M
  | tryTake {m : Memory} {l : LockId} {p : Policy} : M.Enlists table i m l →
      Granting t M table i (.tryTake ⟨l, p, some table⟩) m
  | readClosed {m : Memory} {l : LockId} {p : Policy} {x : Mutex} : M.Enlists table i m l →
      (m.lock l).mutex.take? t = some x →
      Granting t M table i (.readClosed ⟨l, p, some table⟩) (m.setMutex l x)

/-- The lock has been got. -/
def Granted (t : ThreadId) (M : Memory) (table : TableId) (i : String) (st : Step) : Prop :=
  ∃ m l x, M.Enlists table i m l ∧ (m.lock l).mutex.take? t = some x ∧ st.memory = m.setMutex l x ∧
    st.phase = .idle ∧ st.notes = [.returned (.obtained ⟨table, l⟩)]

namespace Granting

variable {t : ThreadId} {M m : Memory} {table : TableId} {i : String} {p : Phase} {st : Step}
  {now : Nat}

theorem beginsWait (h : Granting t M table i p m) : p.beginsWait = false := by
  cases h <;> rfl

theorem not_asleep (h : Granting t M table i p m) (e : Errand) (d : Option Nat) :
    p ≠ .waiting e d .asleep := by
  cases h <;> exact nofun

theorem next_readClosed {l : LockId} {policy : Policy} {x : Mutex}
    (hc : (m.lock l).closed = false) :
    (Phase.readClosed ⟨l, policy, some table⟩).next t now (m.setMutex l x) =
      some (.finish (m.setMutex l x) (.obtained ⟨table, l⟩)) := by
  have hclosed : ((m.setMutex l x).lock l).closed = false := by
    rw [Memory.setMutex, Memory.lock_modifyLock, if_pos rfl]
    exact hc
  show some (Attempt.readClosed _ _) = _
  rw [Attempt.readClosed, hclosed]
  rfl

theorem next (h : Granting t M table i p m) (ho : M.Open t table i)
    (hst : p.next t now m = some st) :
    (Granting t M table i st.phase st.memory ∧ ∀ o, .returned o ∉ st.notes) ∨
      Granted t M table i st := by
  cases h with
  | lookUp =>
    rcases hf : (M.table table).find? i with - | l
    · rw [next_lookUp_absent hf] at hst
      cases hst
      exact .inl ⟨.insert hf, fun _ => List.not_mem_nil⟩
    · rw [next_lookUp_found hf] at hst
      cases hst
      exact .inl ⟨.tryTake (.registered hf), fun _ => List.not_mem_nil⟩
  | insert hf =>
    rw [next_insert hf] at hst
    cases hst
    refine .inl ⟨.tryTake (.fresh hf), fun o h => ?_⟩
    cases Step.returned_of_emit h
  | @tryTake _ l p h =>
    obtain ⟨x, hx⟩ := (h.ready ho).2
    have htake : Attempt.tryTake t m ⟨l, p, some table⟩ = some st := hst
    obtain ⟨-, rfl⟩ := Memory.critical_eq_some_iff.mp htake
    dsimp only
    rw [hx]
    exact .inl ⟨.readClosed h hx, fun _ => List.not_mem_nil⟩
  | @readClosed m l p x h hx =>
    rw [next_readClosed (h.ready ho).1] at hst
    cases hst
    exact .inr ⟨m, l, x, h, hx, rfl, rfl, rfl⟩

section
variable (ho : M.Open t table i)
include ho

theorem delivers_tryTake {l : LockId} {policy : Policy} (h : M.Enlists table i m l)
    (hl : (m.lock l).latch = none) :
    Delivers t (.tryTake ⟨l, policy, some table⟩) m now 0 (.obtained ⟨table, l⟩) := by
  obtain ⟨hc, x, hx⟩ := h.ready ho
  exact .of_act (Attempt.next_tryTake_of_take? hl hx) rfl
    (.of_last (next_readClosed hc) rfl (.head _))

/-- An acquisition that nothing stands in the way of gets the lock without a wait. -/
theorem delivers_lookUp (hl : ∀ l, (M.table table).find? i = some l → (M.lock l).latch = none) :
    ∃ l, Delivers t (.lookUp table i) M now 0 (.obtained ⟨table, l⟩) := by
  rcases hf : (M.table table).find? i with - | l
  · have h : M.Enlists table i (M.addEntry table i) M.locks.fresh := .fresh hf
    exact ⟨M.locks.fresh, .of_act (next_lookUp_absent hf) rfl
      (.of_act (next_insert hf) rfl (delivers_tryTake ho h (h.latch hl)))⟩
  · have h : M.Enlists table i M l := .registered hf
    exact ⟨l, .of_act (next_lookUp_found hf) rfl (delivers_tryTake ho h (hl l hf))⟩

end

end Granting

namespace System

variable {s s' : System} {t : ThreadId} {k : Nat} {o : Outcome} {e : LockError} {table : TableId}
  {i : String} {l : LockId}

/-- An idle thread that does not own a lock which somebody owns has nothing to do with it. -/
theorem Reached.hindered {u : ThreadId} (hs : s.Reached) (hi : s.phase t = .idle)
    (ho : (s.memory.lock l).mutex.owner = some u) (hu : u ≠ t) :
    Hindered t (s.memory.lock l) where
  taken := Mutex.take?_eq_none_iff.mpr ⟨u, hu, ho⟩
  outside := hs.queues.not_mem (by rw [hi]; rfl) l
  awake h := by
    have hq := hs.stage?_of_sleeper l t h
    rw [hi] at hq
    cases hq

/-- An undisturbed acquisition that nothing stands in the way of gets the lock. -/
theorem Finishes.granted {M : Memory} (h : Finishes t s k o s') (ho : M.Open t table i)
    (hs : Granting t M table i (s.phase t) s.memory) :
    k = 0 ∧ ∃ m l x, M.Enlists table i m l ∧ (m.lock l).mutex.take? t = some x ∧
      s'.memory = m.setMutex l x ∧ o = .obtained ⟨table, l⟩ := by
  rw [← Nat.zero_add k]
  refine h.induct (P := fun j s => j = 0 ∧ Granting t M table i (s.phase t) s.memory)
    (Q := fun j o s' => j = 0 ∧ ∃ m l x, M.Enlists table i m l ∧
      (m.lock l).mutex.take? t = some x ∧ s'.memory = m.setMutex l x ∧
      o = .obtained ⟨table, l⟩) id ?_ ?_ ⟨rfl, hs⟩
  · rintro j s l ⟨-, hg⟩ ha
    obtain ⟨e, d, hp, -⟩ := asleepOn_eq_some_iff.mp ha
    exact absurd hp (hg.not_asleep e d)
  · rintro j s st ⟨rfl, hg⟩ hst
    rw [hg.beginsWait, Bool.toNat_false]
    rcases hg.next ho hst with ⟨hg', hn⟩ | ⟨m, l, x, he, hx, hm, hi, hn⟩
    · refine .inl ⟨⟨rfl, ?_⟩, hn⟩
      rw [phase_after]
      exact hg'
    · refine .inr ⟨hi, fun o h => ⟨rfl, m, l, x, he, hx, hm, ?_⟩⟩
      rw [hn] at h
      cases List.mem_singleton.mp h
      rfl

/-! ## The outcome -/

theorem exists_alone (hi : s.phase t = .idle)
    (h : Delivers t (.lookUp table i) (s.memory.retain table) s.now k o) :
    ∃ s', Alone t (.obtain table i) s k o s' := by
  have hc : s.call t (.obtain table i) = some _ := call_eq_some_iff.mpr ⟨hi, rfl⟩
  obtain ⟨s', hf⟩ := h _ (phase_of_call hc) rfl rfl
  exact ⟨s', _, hc, hf⟩

theorem Alone.grants (hs : s.Reached) (ho : (s.memory.retain table).Open t table i)
    (h : Alone t (.obtain table i) s k o s') :
    k = 0 ∧ ∃ l, o = .obtained ⟨table, l⟩ ∧ s.memory.Grants t table i l s'.memory := by
  obtain ⟨s₁, hc, hf⟩ := h
  have hp : s₁.phase t = .lookUp table i := phase_of_call hc
  obtain ⟨-, rfl⟩ := call_eq_some_iff.mp hc
  obtain ⟨hk, m, l, x, he, hx, hm, hr⟩ := hf.granted ho (hp ▸ .lookUp)
  refine ⟨hk, l, hr, ?_⟩
  rw [hm]
  exact s.memory.grants hs.wf ho he hx

theorem Alone.refuses (ha : s.memory.isAlive table) (hk : Hindered t (s.memory.lock l))
    (hf : (s.memory.table table).find? i = some l) (h : Alone t (.obtain table i) s k o s') :
    ∃ e, (Attempt.ofEntry s.memory table l).hindrance t s.memory = some e ∧ o = .refused e ∧
      k = e.waits ∧ s'.memory = s.memory.refusing t e := by
  obtain ⟨s₁, hc, hfin⟩ := h
  have hp : s₁.phase t = .lookUp table i := phase_of_call hc
  obtain ⟨-, rfl⟩ := call_eq_some_iff.mp hc
  have hstart : Waypoint t (s.memory.retain table) (.ofEntry s.memory table l) 0 (.lookUp table i)
      (s.memory.retain table) :=
    .lookUp ((Memory.find?_retain ..).trans hf) (Memory.ofEntry_retain ..).symm
  obtain ⟨e, he, ho, hw, hm⟩ := hfin.refused hk (hp ▸ hstart)
  rw [Memory.hindrance_retain ha] at he
  exact ⟨e, he, ho, hw, hm.trans (Memory.refusing_retain ha)⟩

theorem exists_refused_of_room (hi : s.phase t = .idle) (ha : s.memory.isAlive table)
    (hk : Hindered t (s.memory.lock l)) (hf : (s.memory.table table).find? i = some l)
    (hfree : (s.memory.lock l).latch = none)
    (hlive : (s.memory.table table).policy.queueLimitReached
      (s.memory.lock l).mutex.queueLength = false →
      ∀ j ∈ s.memory.liveLocks, (s.memory.lock j).latch = none)
    (he : (Attempt.ofEntry s.memory table l).hindrance t s.memory = some e)
    (hends : ∀ i n, e = .attemptsExceeded i n →
      (Attempt.ofEntry s.memory table l).Ends s.now (n - 1)) :
    ∃ s', Alone t (.obtain table i) s e.waits (.refused e) s' := by
  refine exists_alone hi (.of_act (next_lookUp_found ((Memory.find?_retain ..).trans hf)) rfl ?_)
  rw [Memory.ofEntry_retain]
  rw [← Memory.liveLocks_retain ha] at hlive
  exact Attempt.delivers_of_hindrance hk hfree hlive ((Memory.hindrance_retain ha _).trans he) hends

theorem exists_refused (hi : s.phase t = .idle) (ha : s.memory.isAlive table)
    (hk : Hindered t (s.memory.lock l)) (hf : (s.memory.table table).find? i = some l)
    (hl : ∀ j ∈ l :: s.memory.liveLocks, (s.memory.lock j).latch = none)
    (he : (Attempt.ofEntry s.memory table l).hindrance t s.memory = some e)
    (hends : ∀ i n, e = .attemptsExceeded i n →
      (Attempt.ofEntry s.memory table l).Ends s.now (n - 1)) :
    ∃ s', Alone t (.obtain table i) s e.waits (.refused e) s' :=
  exists_refused_of_room hi ha hk hf (hl l (.head _)) (fun _ j hj => hl j (.tail _ hj)) he hends

/-- **What an undisturbed acquisition comes to.** A thread that is not in a call asks a table for an
identifier that has no lock there, or an open one, and nobody else moves.

If nobody else has the lock, the thread gets it, without a wait and with one hold more, unless
someone is inside the lock.

If someone else has it, `Attempt.hindrance` names the reason for which the thread is refused; it is
refused after as many waits as that takes, if nobody is inside a lock and the waits have an end. The
memory is as it was, but for the flag that an interrupt takes. Without a reason the call does not
return. -/
theorem obtains_alone (hs : s.Reached) (hi : s.phase t = .idle) (ha : s.memory.isAlive table)
    (hopen : ∀ l, (s.memory.table table).find? i = some l → (s.memory.lock l).closed = false) :
    ((∀ l u, (s.memory.table table).find? i = some l →
        (s.memory.lock l).mutex.owner = some u → u = t) →
      ((∀ l, (s.memory.table table).find? i = some l → (s.memory.lock l).latch = none) →
        ∃ l s', Alone t (.obtain table i) s 0 (.obtained ⟨table, l⟩) s') ∧
      ∀ k o s', Alone t (.obtain table i) s k o s' → k = 0 ∧ (∀ u, s'.phase u = s.phase u) ∧
        ∃ l, o = .obtained ⟨table, l⟩ ∧ s.memory.Grants t table i l s'.memory) ∧
    ∀ l u, (s.memory.table table).find? i = some l → (s.memory.lock l).mutex.owner = some u →
      u ≠ t →
      (∀ e, (Attempt.ofEntry s.memory table l).hindrance t s.memory = some e →
        (∀ j ∈ l :: s.memory.liveLocks, (s.memory.lock j).latch = none) →
        (∀ i n, e = .attemptsExceeded i n →
          (Attempt.ofEntry s.memory table l).Ends s.now (n - 1)) →
        ∃ s', Alone t (.obtain table i) s e.waits (.refused e) s') ∧
      (∀ k o s', Alone t (.obtain table i) s k o s' → ∃ e,
        (Attempt.ofEntry s.memory table l).hindrance t s.memory = some e ∧ o = .refused e ∧
        k = e.waits ∧ s'.memory = s.memory.refusing t e ∧ ∀ u, s'.phase u = s.phase u) ∧
      ((Attempt.ofEntry s.memory table l).hindrance t s.memory = none →
        ∀ k o s', ¬ Alone t (.obtain table i) s k o s') := by
  constructor
  · intro hown
    have ho : (s.memory.retain table).Open t table i := by
      intro l hf
      rw [Memory.find?_retain] at hf
      refine ⟨hopen l hf, Option.ne_none_iff_exists'.mp fun hn => ?_⟩
      obtain ⟨u, hu, hl⟩ := Mutex.take?_eq_none_iff.mp hn
      exact hu (hown l u hf hl)
    constructor
    · intro hl
      have hl' (l : LockId) (hf : ((s.memory.retain table).table table).find? i = some l) :
          ((s.memory.retain table).lock l).latch = none :=
        hl l ((Memory.find?_retain ..).symm.trans hf)
      obtain ⟨l, h⟩ := Granting.delivers_lookUp ho hl'
      obtain ⟨s', h⟩ := exists_alone hi h
      exact ⟨l, s', h⟩
    · intro k o s' h
      obtain ⟨hk, hl⟩ := h.grants hs ho
      exact ⟨hk, h.phase_eq, hl⟩
  · intro l u hf hu hne
    have hk := hs.hindered hi hu hne
    refine ⟨fun e he hl hends => exists_refused hi ha hk hf hl he hends, fun k o s' h => ?_,
      fun hnone k o s' h => ?_⟩
    · obtain ⟨e, he, ho, hw, hm⟩ := h.refuses ha hk hf
      exact ⟨e, he, ho, hw, hm, h.phase_eq⟩
    · obtain ⟨e, he, -⟩ := h.refuses ha hk hf
      rw [hnone] at he
      cases he

/-- While thread 1 has "a", it gets "a" once more, and thread 2, which may try twice, waits once in
vain. -/
theorem obtains_alone_taken : ∃ s ns s' s'', run {} taken = some (s, ns) ∧
    Alone 1 (.obtain 0 "a") s 0 (.obtained ⟨0, 0⟩) s' ∧ (s'.memory.lock 0).mutex.holdsOf 1 = 2 ∧
    Alone 2 (.obtain 0 "a") s 1 (.refused (.attemptsExceeded "a" 2)) s'' ∧
    s''.memory = s.memory := by
  have hx : ∃ s ns, run {} taken = some (s, ns) ∧ s.Reached ∧ s.phase 1 = .idle ∧
      s.phase 2 = .idle ∧ s.memory.isAlive 0 = true ∧ (s.memory.table 0).find? "a" = some 0 ∧
      s.memory.lock 0 = { identifier := "a", mutex := { owner := some 1, holds := 1 } } ∧
      (Attempt.ofEntry s.memory 0 0).hindrance 2 s.memory = some (.attemptsExceeded "a" 2) ∧
      (∀ j ∈ 0 :: s.memory.liveLocks, (s.memory.lock j).latch = none) ∧
      (Attempt.ofEntry s.memory 0 0).Ends s.now 1 := Reached.exists_of_run (by decide +kernel)
  obtain ⟨s, ns, hr, hs, h1, h2, ha, hf, hk, hh, hlatch, hends⟩ := hx
  have hlock (l : LockId) (h : (s.memory.table 0).find? "a" = some l) : l = 0 :=
    Option.some.inj (h.symm.trans hf)
  have hopen (l : LockId) (h : (s.memory.table 0).find? "a" = some l) :
      (s.memory.lock l).closed = false := by
    rw [hlock l h, hk]
  have howner : (s.memory.lock 0).mutex.owner = some 1 := by rw [hk]
  have hmine (l : LockId) (u : ThreadId) (h : (s.memory.table 0).find? "a" = some l)
      (hu : (s.memory.lock l).mutex.owner = some u) : u = 1 := by
    rw [hlock l h] at hu
    exact Option.some.inj (hu.symm.trans howner)
  obtain ⟨hgrant, hgot⟩ := (obtains_alone hs h1 ha hopen).1 hmine
  obtain ⟨hwait, hrefused, -⟩ := (obtains_alone hs h2 ha hopen).2 0 1 hf howner (by decide)
  obtain ⟨l, s', hs'⟩ := hgrant fun l h => hlock l h ▸ hlatch 0 (.head _)
  obtain ⟨s'', hs''⟩ := hwait _ hh hlatch fun i n h => by
    cases h
    exact hends
  obtain ⟨-, -, l', ho, hg⟩ := hgot _ _ _ hs'
  cases ho
  obtain rfl := hg.eq_of_find? hf
  obtain ⟨e, -, ho', -, hm, -⟩ := hrefused _ _ _ hs''
  cases ho'
  refine ⟨s, ns, s', s'', hr, hs', ?_, hs'', hm⟩
  rw [hg.held, hk]
  rfl

end System

end KeyedLocks
