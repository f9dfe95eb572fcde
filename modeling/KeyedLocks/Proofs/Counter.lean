import KeyedLocks.Proofs.Refusal

/-!
# A mutex is a counter of holds

Threads work on a mutex with four operations (`MutexOp`): they try it, wait for it, give it back and
wake its waiters. Whether one has succeeded is to be seen in its answer, in the log, or in where the
thread goes on. `System.balance t l s ms` is what the moves `ms` bring thread `t` in: the operations
that got it lock `l`, less those that gave it back.

Owner and holds of the mutex are that counter and nothing more (`System.counts`): at most one thread
has a positive balance, it is the owner, and its holds are its balance. Each operation succeeds as
the balances say.
-/

namespace KeyedLocks

/-! ## Operations -/

inductive MutexOp where
  | tryLock
  | tryLockFor
  | unlock
  | wake
deriving Repr, DecidableEq

namespace MutexOp

/-- The operation is there to take the mutex. -/
def acquires : MutexOp → Bool
  | tryLock | tryLockFor => true
  | unlock | wake => false

end MutexOp

/-- The operation whose next action the thread is about to carry out, and on which lock. -/
def Phase.operation? : Phase → Option (MutexOp × LockId)
  | .tryTake a => some (.tryLock, a.lock)
  | .releasing h _ .probe => some (.tryLock, h.lock)
  | .acting (.tryLock l) => some (.tryLock, l)
  | .waiting e _ _ => some (.tryLockFor, e.lock)
  | .backOut a => some (.unlock, a.lock)
  | .releasing h _ .unlock | .releasing h _ .unprobe => some (.unlock, h.lock)
  | .unlocking l _ => some (.unlock, l)
  | .notifyBackOut a => some (.wake, a.lock)
  | .releasing h _ .notify | .releasing h _ .notifyProbe => some (.wake, h.lock)
  | .notifying l | .interrupting _ (.wake _ l _ _) | .acting (.wake l) => some (.wake, l)
  | _ => none

/-- The caller gives a hold back by itself. -/
def Phase.isUnlocking : Phase → Bool
  | .unlocking .. => true
  | _ => false

/-- The thread goes on as one that has just taken a mutex. -/
def Phase.hasTaken : Phase → Bool
  | .readClosed _ | .releasing _ _ .count => true
  | _ => false

/-- The caller is told that it has the mutex now. -/
def Note.isTaken : Note → Bool
  | .returned (.tried taken) => taken
  | .returned (.waited r) => r = .acquired
  | _ => false

/-- The caller or the log is told that the thread did not have the mutex. -/
def Note.isNotHeld : Note → Bool
  | .returned (.refused (.notHeld _)) | .returned .notOwner | .event (.guardNotReleased ..)
  | .event (.closedNotHeld _) | .event (.probeNotHeld _) => true
  | _ => false

/-- The action that led to `st` has been a success of the operation. -/
def MutexOp.succeeds (st : Step) : MutexOp → Bool
  | .tryLock | .tryLockFor => st.phase.hasTaken || st.notes.any Note.isTaken
  | .unlock => !st.notes.any Note.isNotHeld
  | .wake => true

/-- The two mutexes differ in their queues at most. -/
structure Mutex.Alike (x y : Mutex) : Prop where
  owner : y.owner = x.owner
  holds : y.holds = x.holds

theorem Mutex.Alike.refl (x : Mutex) : x.Alike x := ⟨rfl, rfl⟩

theorem Mutex.Alike.holdsOf {x y : Mutex} (h : x.Alike y) (t : ThreadId) :
    y.holdsOf t = x.holdsOf t := by
  unfold Mutex.holdsOf
  rw [h.owner, h.holds]

theorem Memory.Alike.refl (m : Memory) : m.Alike m := ⟨rfl, fun _ => rfl, fun _ => rfl, rfl, rfl⟩

/-- What an action of `me` from phase `p` can do to the holds on lock `l`. -/
inductive Books (me : ThreadId) (m : Memory) (p : Phase) (st : Step) (l : LockId) : Prop where
  | rest : (m.mutexes l).Alike (st.memory.mutexes l) →
      (∀ op, p.operation? = some (op, l) → op = .wake) → Books me m p st l
  | take {op : MutexOp} {x : Mutex} : p.operation? = some (op, l) → op.acquires →
      op.succeeds st → (m.mutexes l).take? me = some x → x.Alike (st.memory.mutexes l) →
      Books me m p st l
  | miss : p.operation? = some (.tryLock, l) → MutexOp.tryLock.succeeds st = false →
      (m.mutexes l).take? me = none → st.memory.mutexes l = m.mutexes l → Books me m p st l
  | wait : p.operation? = some (.tryLockFor, l) → MutexOp.tryLockFor.succeeds st = false →
      (m.mutexes l).Alike (st.memory.mutexes l) → Books me m p st l
  | release {x : Mutex} : p.operation? = some (.unlock, l) → MutexOp.unlock.succeeds st →
      (m.mutexes l).release? me = some x → st.memory.mutexes l = x → Books me m p st l
  | refuse : p.operation? = some (.unlock, l) → MutexOp.unlock.succeeds st = false →
      (m.mutexes l).release? me = none → m.Alike st.memory →
      (p.isUnlocking → st.memory = m) → Books me m p st l

section
variable {me : ThreadId} {now : Nat} {m : Memory} {p : Phase} {st : Step} {l : LockId}

/-- An operation that is there to take a mutex does, or leaves owner and holds as they are. -/
theorem Books.acquires {op : MutexOp} (h : Books me m p st l) (hop : p.operation? = some (op, l))
    (ha : op.acquires) : (op.succeeds st ∧ (m.mutexes l).take? me ≠ none) ∨
      op.succeeds st = false ∧ (m.mutexes l).Alike (st.memory.mutexes l) ∧
        (op = .tryLock → (m.mutexes l).take? me = none) := by
  cases h with
  | rest _ hw =>
    cases hw op hop
    cases ha
  | take hop' _ hs hx =>
    cases hop.symm.trans hop'
    exact .inl ⟨hs, by rw [hx]; exact nofun⟩
  | miss hop' hs hx hm =>
    cases hop.symm.trans hop'
    exact .inr ⟨hs, hm ▸ .refl _, fun _ => hx⟩
  | wait hop' hs hm =>
    cases hop.symm.trans hop'
    exact .inr ⟨hs, hm, nofun⟩
  | release hop' | refuse hop' =>
    cases hop.symm.trans hop'
    cases ha

theorem Books.unlock (h : Books me m p st l) (hop : p.operation? = some (.unlock, l)) :
    (MutexOp.unlock.succeeds st ∧ (m.mutexes l).owner = some me) ∨
      MutexOp.unlock.succeeds st = false ∧ (m.mutexes l).owner ≠ some me ∧ m.Alike st.memory ∧
        (p.isUnlocking → st.memory = m) := by
  cases h with
  | rest _ hw => cases hw _ hop
  | take hop' ha =>
    cases hop.symm.trans hop'
    cases ha
  | miss hop' | wait hop' => cases hop.symm.trans hop'
  | release _ hs hx => exact .inl ⟨hs, (Mutex.release?_eq_some_iff.mp hx).1⟩
  | refuse _ hs hx hm hp => exact .inr ⟨hs, Mutex.release?_eq_none_iff.mp hx, hm, hp⟩

/-! ### Phases that do not work on the mutexes -/

theorem books_of_quiet (hm : st.memory.mutexes = m.mutexes) (hp : p.operation? = none) :
    Books me m p st l := by
  refine .rest ?_ fun op hop => ?_
  · rw [hm]
    exact .refl _
  · rw [hp] at hop
    cases hop

theorem books_of_wake {k : LockId} (hm : st.memory.mutexes = m.mutexes)
    (hp : p.operation? = some (.wake, k)) : Books me m p st l := by
  refine .rest ?_ fun op hop => ?_
  · rw [hm]
    exact .refl _
  · rw [hp] at hop
    cases hop
    rfl

theorem books_of_at {op : MutexOp} {k : LockId} (hp : p.operation? = some (op, k))
    (hm : ∀ j, j ≠ k → st.memory.mutexes j = m.mutexes j) (hk : Books me m p st k)
    : Books me m p st l := by
  by_cases hl : l = k
  · rw [hl]
    exact hk
  · refine .rest (hm l hl ▸ .refl _) fun op' hp' => ?_
    rw [hp] at hp'
    cases hp'
    exact absurd rfl hl

theorem books_of_take {op : MutexOp} {k : LockId} {x : Mutex} (hp : p.operation? = some (op, k))
    (ha : op.acquires) (hs : op.succeeds st) (hx : (m.lock k).mutex.take? me = some x)
    (hm : st.memory = m.setMutex k x) : Books me m p st l := by
  have hu := m.mutexes_setMutex k x
  rw [← hm] at hu
  refine books_of_at hp (fun j hj => ?_) (.take hp ha hs hx ?_)
  · rw [hu, Function.update_of_ne hj]
  · rw [hu, Function.update_self]
    exact .refl x

theorem books_of_miss {k : LockId} (hp : p.operation? = some (.tryLock, k))
    (hs : MutexOp.tryLock.succeeds st = false) (hx : (m.lock k).mutex.take? me = none)
    (hm : st.memory.mutexes = m.mutexes) : Books me m p st l :=
  books_of_at hp (fun j _ => congrFun hm j) (.miss hp hs hx (congrFun hm k))

theorem books_of_release {k : LockId} {x : Mutex} (hp : p.operation? = some (.unlock, k))
    (hs : MutexOp.unlock.succeeds st) (hx : (m.lock k).mutex.release? me = some x)
    (hm : st.memory.mutexes = (m.setMutex k x).mutexes) : Books me m p st l := by
  rw [m.mutexes_setMutex k x] at hm
  refine books_of_at hp (fun j hj => ?_) (.release hp hs hx ?_)
  · rw [hm, Function.update_of_ne hj]
  · rw [hm, Function.update_self]

theorem books_of_refuse {k : LockId} (hp : p.operation? = some (.unlock, k))
    (hs : MutexOp.unlock.succeeds st = false) (hx : (m.lock k).mutex.release? me = none)
    (hm : m.Alike st.memory) (hl : p.isUnlocking → st.memory = m) :
    Books me m p st l := by
  refine books_of_at hp (fun j _ => ?_) (.refuse hp hs hx hm hl)
  show (st.memory.locks.get j).mutex = _
  rw [hm.locks]
  rfl

/-! ### Waits -/

namespace Errand

variable {e : Errand} {d : Option Nat} {s : WaitStage}

theorem succeeds_conclude (r : WaitResult) :
    MutexOp.tryLockFor.succeeds (e.conclude m r) = decide (r = .acquired) := by
  cases e <;> cases r <;> rfl

theorem books_of_acquired {x y : Mutex} (hx : (m.lock e.lock).mutex.take? me = some x)
    (hxy : x.Alike y) :
    Books me m (.waiting e d s) (e.conclude (m.setMutex e.lock y) .acquired) l := by
  have hu := m.mutexes_setMutex e.lock y
  refine books_of_at rfl (fun j hj => ?_) (.take rfl rfl (succeeds_conclude _) hx ?_)
  · rw [mutexes_conclude, hu, Function.update_of_ne hj]
  · rw [mutexes_conclude, hu, Function.update_self]
    exact hxy

/-- What a wait that brings nothing does to the queue is no matter of holds. -/
theorem books_of_wait (hs : MutexOp.tryLockFor.succeeds st = false)
    (hm : ∀ l, (m.mutexes l).Alike (st.memory.mutexes l)) :
    Books me m (.waiting e d s) st l := by
  by_cases hl : l = e.lock
  · subst hl
    exact .wait rfl hs (hm _)
  · refine .rest (hm l) fun op hp => ?_
    cases hp
    exact absurd rfl hl

/-- The other case of a wait that is over: the thread has left the queue. -/
theorem books_of_quit {m' : Memory} {r : WaitResult} (hr : r ≠ .acquired)
    (hm : m'.mutexes = m.mutexes) :
    Books me m (.waiting e d s) (e.conclude (e.quit me m') r) l := by
  refine books_of_wait ((succeeds_conclude r).trans (decide_eq_false hr)) fun l => ?_
  rw [mutexes_conclude, Memory.mutexes_quit, hm, Function.update_apply]
  split
  · next h => exact h ▸ ⟨rfl, rfl⟩
  · exact .refl _

theorem books_of_enter : Books me m (.waiting e d .enter) (.moveTo
    ((m.setMutex e.lock ((m.lock e.lock).mutex.enqueue me)).setLatch e.lock (some me))
    (.waiting e d .checkFlag)) l := by
  refine books_of_wait rfl fun l => ?_
  rw [Step.moveTo, Memory.mutexes_setLatch, Memory.mutexes_setMutex, Function.update_apply]
  split
  · next hl => exact hl ▸ ⟨rfl, rfl⟩
  · exact .refl _

theorem books_of_waiting {m' : Memory} {s' : WaitStage} (hm : m'.mutexes = m.mutexes) :
    Books me m (.waiting e d s) (.moveTo m' (.waiting e d s')) l := by
  refine books_of_wait rfl fun l => ?_
  rw [Step.moveTo, hm]
  exact .refl _

theorem wait_plain {k : LockId} (h : (Errand.plain k).wait me now m d s = some st) :
    ((∃ d' s', st.phase = .waiting (.plain k) d' s') ∧ st.notes = []) ∨
      ∃ r, st.phase = .idle ∧ st.notes = [.returned (.waited r)] := by
  cases wait_acts h with
  | acquire | heed | timeOut | grab => exact .inr ⟨_, rfl, rfl⟩
  | enter | drowse | sleep | rise => exact .inl ⟨⟨_, _, rfl⟩, rfl⟩

end Errand

/-- **Every action keeps the books of every lock.** -/
theorem Phase.next_books (h : p.next me now m = some st) (l : LockId) : Books me m p st l := by
  cases next_acts h with
  | take _ hx | probe _ hx | tried _ hx => exact books_of_take rfl rfl rfl hx rfl
  | miss _ hx | yield _ hx | triedInVain _ hx => exact books_of_miss rfl rfl hx rfl
  | backOut _ hx | backOutLast _ hx | unlock _ hx | unlockLast _ hx | unprobe _ hx
  | unprobeLast _ hx | give _ hx | giveLast _ hx => exact books_of_release rfl rfl hx rfl
  | backOutFails _ hx => exact books_of_refuse rfl rfl hx (.refl m) nofun
  | refuse _ hx | refuseGuard _ hx | unprobeFails _ hx =>
    exact books_of_refuse rfl rfl hx (Memory.alike_forgo m _) nofun
  | notHeld _ hx | notOwner _ hx => exact books_of_refuse rfl rfl hx (.refl m) fun _ => rfl
  | backedOut | notify | disposed | given | wake | woken =>
    exact books_of_wake Memory.mutexes_notifyAll rfl
  | acquire _ hx => exact Errand.books_of_acquired hx (.refl _)
  | grab _ _ hx => exact Errand.books_of_acquired hx ⟨rfl, rfl⟩
  | heed =>
    have hm : (m.clearInterrupt me).mutexes = m.mutexes := rfl
    exact Errand.books_of_quit nofun hm
  | timeOut => exact Errand.books_of_quit nofun rfl
  | enter => exact Errand.books_of_enter
  | drowse => exact Errand.books_of_waiting rfl
  | sleep =>
    exact Errand.books_of_waiting ((Memory.mutexes_setLatch _).trans Memory.mutexes_sleep)
  | rise => exact Errand.books_of_waiting (Memory.mutexes_setLatch _)
  -- All other actions leave the mutexes alone.
  | queueFull | spent | listed | cycle =>
    exact books_of_quiet (Memory.mutexes_of_locks (Memory.locks_forgoAll ..)) rfl
  | listTables | seek =>
    exact books_of_quiet (Memory.mutexes_of_locks (Memory.locks_retainAll ..)) rfl
  | close | closeRaw => exact books_of_quiet Memory.mutexes_close rfl
  | create | makeLock => exact books_of_quiet (Memory.mutexes_addLock _) rfl
  | _ => exact books_of_quiet rfl rfl

end

/-! ## Balances -/

namespace System

variable {s s' : System} {t u : ThreadId} {l : LockId} {q : MutexOp → Bool} {op : MutexOp}
  {st : Step} {ms : List Move} {ns : List (ThreadId × Note)}

/-- The next action of `t` makes an operation in `q` on lock `l` a success. -/
def succeeds (t : ThreadId) (l : LockId) (q : MutexOp → Bool) (s : System) : Bool :=
  match (s.phase t).operation?, (s.phase t).next t s.now s.memory with
  | some (op, k), some st => k = l && (q op && op.succeeds st)
  | _, _ => false

/-- How many operations in `q` on lock `l` the moves make a success for `t`. -/
def successes (t : ThreadId) (l : LockId) (q : MutexOp → Bool) : System → List Move → Nat
  | _, [] => 0
  | s, m :: ms =>
    match s.move m with
    | none => 0
    | some (s', _) => (if m = .act t then (s.succeeds t l q).toNat else 0) + successes t l q s' ms

/-- The operations that got `t` the lock, less those that gave it back. -/
def balance (t : ThreadId) (l : LockId) (s : System) (ms : List Move) : Int :=
  s.successes t l MutexOp.acquires ms - s.successes t l (· == .unlock) ms

theorem succeeds_eq (hst : (s.phase t).next t s.now s.memory = some st)
    (hop : (s.phase t).operation? = some (op, l)) :
    s.succeeds t l q = (q op && op.succeeds st) := by
  simp [succeeds, hst, hop]

theorem succeeds_eq_false (h : ∀ op, (s.phase t).operation? = some (op, l) → q op = false) :
    s.succeeds t l q = false := by
  unfold succeeds
  split
  · next op k st hop hst =>
    by_cases hk : k = l
    · subst hk
      simp [h op hop]
    · simp [hk]
  · rfl

theorem successes_cons {m : Move} (hm : s.move m = some (s', ns)) :
    s.successes t l q (m :: ms) =
      (if m = .act t then (s.succeeds t l q).toNat else 0) + s'.successes t l q ms := by
  rw [successes, hm]

/-- What an action adds to the holds of its thread and takes from them. -/
theorem holdsOf_of_act (hs : s.Reached) (hst : (s.phase t).next t s.now s.memory = some st)
    (l : LockId) : (s.after t st).holdsOf t l + (s.succeeds t l (· == .unlock)).toNat =
      s.holdsOf t l + (s.succeeds t l MutexOp.acquires).toNat := by
  have hsame (hx : (s.memory.mutexes l).Alike (st.memory.mutexes l)) :
      (s.after t st).holdsOf t l = s.holdsOf t l := hx.holdsOf t
  cases Phase.next_books hst l with
  | rest hx hop =>
    have hno {q : MutexOp → Bool} (hq : q .wake = false) : s.succeeds t l q = false :=
      succeeds_eq_false fun op h => hop op h ▸ hq
    rw [hsame hx, hno rfl, hno rfl]
  | @take op x hop ha hsucc hx hy =>
    have hheld : (s.after t st).holdsOf t l = s.holdsOf t l + 1 := by
      refine (hy.holdsOf t).trans ?_
      rw [Mutex.holdsOf_of_take? (hs.wf l) hx, if_pos rfl]
      rfl
    have hne : (op == .unlock) = false := by cases op <;> first | rfl | cases ha
    rw [hheld, succeeds_eq hst hop, succeeds_eq hst hop, hne, ha, hsucc]
    rfl
  | miss hop hsucc _ hx =>
    rw [hsame (hx ▸ .refl _), succeeds_eq hst hop, succeeds_eq hst hop, hsucc]
    rfl
  | wait hop hsucc hx =>
    rw [hsame hx, succeeds_eq hst hop, succeeds_eq hst hop, hsucc]
    rfl
  | @release x hop hsucc hx hy =>
    have hpos : 0 < s.holdsOf t l :=
      Mutex.holdsOf_of_owner (hs.wf l) (Mutex.release?_eq_some_iff.mp hx).1
    have hheld : (s.after t st).holdsOf t l = s.holdsOf t l - 1 := by
      show (st.memory.mutexes l).holdsOf t = _
      rw [hy, Mutex.holdsOf_of_release? hx, if_pos rfl]
      rfl
    rw [hheld, succeeds_eq hst hop, succeeds_eq hst hop, hsucc]
    show s.holdsOf t l - 1 + 1 = s.holdsOf t l + 0
    omega
  | refuse hop hsucc _ hm =>
    have hx : st.memory.mutexes l = s.memory.mutexes l := by
      show (st.memory.locks.get l).mutex = _
      rw [hm.locks]
      rfl
    rw [hsame (hx ▸ .refl _), succeeds_eq hst hop, succeeds_eq hst hop, hsucc]
    rfl

/-- A run adds to the holds of a thread what it got and takes what it gave back. -/
theorem holdsOf_of_steps (h : Steps s ms ns s') (hs : s.Reached) (t : ThreadId) (l : LockId) :
    s'.holdsOf t l + s.successes t l (· == .unlock) ms =
      s.holdsOf t l + s.successes t l MutexOp.acquires ms := by
  induction h with
  | nil => rfl
  | @cons s s₁ s₂ m ms ns₁ ns₂ hm _ ih =>
    have hrest := ih (hs.move hm)
    rw [successes_cons hm, successes_cons hm]
    have hmoved := moved hm
    by_cases hact : m = .act t
    · subst hact
      rw [if_pos rfl, if_pos rfl]
      cases hmoved with
      | act hst =>
        have hheld := holdsOf_of_act hs hst l
        omega
    · rw [if_neg hact, if_neg hact]
      have hheld : s₁.holdsOf t l = s.holdsOf t l := holdsOf_of_moved hs hmoved hact
      omega

theorem holdsOf_eq_balance (h : Steps {} ms ns s) (t : ThreadId) (l : LockId) :
    (s.holdsOf t l : Int) = balance t l {} ms := by
  have hsum := holdsOf_of_steps h .start t l
  have hzero : System.holdsOf {} t l = 0 := rfl
  unfold balance
  omega

/-! ## Owners and holds as the balances say -/

/-- Owner and holds of lock `l` are what the counter `c` says. -/
structure Counts (s : System) (l : LockId) (c : ThreadId → Int) : Prop where
  nonneg : ∀ t, 0 ≤ c t
  sole : ∀ t u, 0 < c t → 0 < c u → t = u
  owner_iff : ∀ t, (s.memory.lock l).mutex.owner = some t ↔ 0 < c t
  free_iff : (s.memory.lock l).mutex.owner = none ↔ ∀ t, c t = 0
  holds : ∀ t, (s.holdsOf t l : Int) = c t

/-- The action of `t` that leads to `st` does to lock `l` what the counter `c` allows. -/
structure Heeds (s : System) (t : ThreadId) (l : LockId) (st : Step) (c : ThreadId → Int) :
    Prop where
  tryLock : (s.phase t).operation? = some (.tryLock, l) →
    (MutexOp.tryLock.succeeds st ↔ ∀ u, u ≠ t → c u = 0)
  tryLockFor : (s.phase t).operation? = some (.tryLockFor, l) →
    MutexOp.tryLockFor.succeeds st → ∀ u, u ≠ t → c u = 0
  /-- Who does not get the mutex has no more of it than before, and no one else either. -/
  missed : ∀ op, (s.phase t).operation? = some (op, l) → op.acquires → op.succeeds st = false →
    (s.memory.lock l).mutex.Alike (st.memory.lock l).mutex
  unlock : (s.phase t).operation? = some (.unlock, l) →
    (MutexOp.unlock.succeeds st ↔ 0 < c t)
  /-- A mutex that is not given back stays as it is, and so does all around it. -/
  refused : (s.phase t).operation? = some (.unlock, l) → MutexOp.unlock.succeeds st = false →
    s.memory.Alike st.memory ∧ ((s.phase t).isUnlocking → st.memory = s.memory)

variable {c : ThreadId → Int}

theorem Reached.counts (hs : s.Reached) (hc : ∀ t, (s.holdsOf t l : Int) = c t) :
    s.Counts l c where
  nonneg t := by
    rw [← hc t]
    exact Int.natCast_nonneg _
  sole t u ht hu := by
    rw [← hc] at ht hu
    have hto := hs.owner_iff.mpr (Int.natCast_pos.mp ht)
    have huo := hs.owner_iff.mpr (Int.natCast_pos.mp hu)
    exact Option.some.inj (hto.symm.trans huo)
  owner_iff t := by
    rw [← hc, Int.natCast_pos]
    exact hs.owner_iff
  free_iff := by
    constructor
    · intro hfree t
      have hnot : ¬ 0 < s.holdsOf t l := by
        rw [← hs.owner_iff, hfree]
        exact nofun
      have := hc t
      omega
    · intro hzero
      rcases ho : (s.memory.lock l).mutex.owner with _ | t
      · rfl
      · have hpos := hs.owner_iff.mp ho
        have := hc t
        have := hzero t
        omega
  holds := hc

theorem Counts.free_for_iff (h : s.Counts l c) : (s.memory.lock l).mutex.take? t ≠ none ↔
    ∀ u, u ≠ t → c u = 0 := by
  rw [ne_eq, Mutex.take?_eq_none_iff]
  constructor
  · intro hfree u hu
    by_contra hc
    have hpos : 0 < c u := Int.lt_iff_le_and_ne.mpr ⟨h.nonneg u, Ne.symm hc⟩
    exact hfree ⟨u, hu, (h.owner_iff u).mpr hpos⟩
  · rintro hzero ⟨o, hne, ho⟩
    have hpos := (h.owner_iff o).mp ho
    have := hzero o hne
    omega

theorem Counts.heeds (h : s.Counts l c) (hst : (s.phase t).next t s.now s.memory = some st) :
    s.Heeds t l st c where
  tryLock hop := by
    rw [← h.free_for_iff]
    rcases (Phase.next_books hst l).acquires hop rfl with ⟨hs, hx⟩ | ⟨hs, -, hx⟩
    · exact ⟨fun _ => hx, fun _ => hs⟩
    · rw [hs]
      exact ⟨nofun, fun hn => absurd (hx rfl) hn⟩
  tryLockFor hop hs := by
    rcases (Phase.next_books hst l).acquires hop rfl with ⟨-, hx⟩ | ⟨hn, -⟩
    · exact h.free_for_iff.mp hx
    · rw [hs] at hn
      cases hn
  missed op hop ha hs := by
    rcases (Phase.next_books hst l).acquires hop ha with ⟨hn, -⟩ | ⟨-, hx, -⟩
    · rw [hs] at hn
      cases hn
    · exact hx
  unlock hop := by
    rw [← h.owner_iff]
    rcases (Phase.next_books hst l).unlock hop with ⟨hs, ho⟩ | ⟨hs, ho, -⟩
    · exact ⟨fun _ => ho, fun _ => hs⟩
    · rw [hs]
      exact ⟨nofun, fun hn => absurd hn ho⟩
  refused hop hs := by
    rcases (Phase.next_books hst l).unlock hop with ⟨hn, -⟩ | ⟨-, -, hm⟩
    · rw [hs] at hn
      cases hn
    · exact hm

/-! ## Waits by themselves -/

/-- An action of a wait for lock `l` brings a hold on it if it is a success. -/
theorem holdsOf_of_waiting (hs : s.Reached) (hst : (s.phase t).next t s.now s.memory = some st)
    {d : Option Nat} {w : WaitStage} (hp : s.phase t = .waiting (.plain l) d w) (k : LockId) :
    (s.after t st).holdsOf t k =
      s.holdsOf t k + if MutexOp.tryLockFor.succeeds st ∧ k = l then 1 else 0 := by
  have hop : (s.phase t).operation? = some (.tryLockFor, l) := by
    rw [hp]
    rfl
  have hk := holdsOf_of_act hs hst k
  by_cases hl : k = l
  · subst hl
    rw [succeeds_eq hst hop, succeeds_eq hst hop] at hk
    rw [show (MutexOp.tryLockFor == MutexOp.unlock) = false from rfl, Bool.false_and,
      show MutexOp.tryLockFor.acquires = true from rfl, Bool.true_and] at hk
    rcases hb : MutexOp.tryLockFor.succeeds st <;> rw [hb] at hk <;> simpa using hk
  · have hno {q : MutexOp → Bool} : s.succeeds t k q = false := by
      refine succeeds_eq_false fun op hop' => ?_
      cases hop.symm.trans hop'
      exact absurd rfl hl
    rw [hno, hno] at hk
    rw [if_neg fun h => hl h.2]
    exact hk

/-- As long as a thread waits by itself, it has the holds it began with. -/
theorem During.waits {d : Duration} (h : During t (.lockFor l d) s s') (hs : s.Reached) :
    (∃ d' w, s'.phase t = .waiting (.plain l) d' w) ∧ ∀ k, s'.holdsOf t k = s.holdsOf t k := by
  induction h with
  | call hc =>
    refine ⟨⟨_, _, phase_of_call hc⟩, fun k => ?_⟩
    obtain ⟨-, rfl⟩ := call_eq_some_iff.mp hc
    rfl
  | @move s₁ s₂ m ns hd hm hi ih =>
    obtain ⟨⟨d', w, hp⟩, hheld⟩ := ih
    have hmoved := moved hm
    by_cases hact : m = .act t
    · subst hact
      cases hmoved with
      | @act _ st hst =>
        rw [phase_after] at hi ⊢
        have hw : (Errand.plain l).wait t s₁.now s₁.memory d' w = some st := by
          rw [hp] at hst
          exact hst
        rcases Errand.wait_plain hw with ⟨⟨d₂, w₂, hp₂⟩, hn⟩ | ⟨r, hp₂, -⟩
        · refine ⟨⟨d₂, w₂, hp₂⟩, fun k => ?_⟩
          have hno : MutexOp.tryLockFor.succeeds st = false := by
            rw [MutexOp.succeeds, hp₂, hn]
            rfl
          rw [holdsOf_of_waiting (hd.reached hs) hst hp, hno, if_neg fun h => nomatch h.1]
          exact hheld k
        · exact absurd hp₂ hi
    · have hne : s₁.phase t ≠ .idle := by
        rw [hp]
        exact nofun
      rw [phase_of_moved hmoved hne hact]
      refine ⟨⟨d', w, hp⟩, fun k => ?_⟩
      rw [holdsOf_of_moved (hd.reached hs) hmoved hact]
      exact hheld k

/-- A wait that brings the lock brings one hold, and any other wait none. -/
theorem holdsOf_of_waited {d : Duration} {r : WaitResult} (hs : s.Reached)
    (h : Returns t (.lockFor l d) s (.waited r) s') (k : LockId) :
    s'.holdsOf t k = s.holdsOf t k + if r = .acquired ∧ k = l then 1 else 0 := by
  obtain ⟨s₁, notes, hd, hact, ho⟩ := h
  obtain ⟨⟨d', w, hp⟩, hheld⟩ := hd.waits hs
  obtain ⟨st, hst, rfl, rfl⟩ := act_eq_some_iff.mp hact
  have hw : (Errand.plain l).wait t s₁.now s₁.memory d' w = some st := by
    rw [hp] at hst
    exact hst
  rcases Errand.wait_plain hw with ⟨-, hn⟩ | ⟨r', hi, hn⟩
  · rw [hn] at ho
    cases ho
  · rw [hn] at ho
    obtain rfl : r = r' := by
      cases List.mem_singleton.mp ho
      rfl
    have hsucc : MutexOp.tryLockFor.succeeds st = decide (r = .acquired) := by
      rw [MutexOp.succeeds, hi, hn]
      cases r <;> rfl
    refine (holdsOf_of_waiting (hd.reached hs) hst hp k).trans ?_
    simp only [hsucc, hheld k, decide_eq_true_iff]

/-- **A mutex is a counter of holds.** After every run the balances of the threads say who owns the
lock and how many holds that is, and at most one balance is positive. What a thread does next
succeeds as the balances say, and a failure takes and gives nothing. A call that waits ends with one
hold more just when it has got the lock. -/
theorem refines_counter (h : Steps {} ms ns s) (l : LockId) :
    s.Counts l (balance · l {} ms) ∧
    (∀ t st, (s.phase t).next t s.now s.memory = some st →
      s.Heeds t l st (balance · l {} ms)) ∧
    ∀ t d r s', Returns t (.lockFor l d) s (.waited r) s' →
      ∀ k, s'.holdsOf t k = s.holdsOf t k + if r = .acquired ∧ k = l then 1 else 0 := by
  have hs : s.Reached := ⟨ms, ns, h⟩
  have hc : s.Counts l (balance · l {} ms) := hs.counts fun t => holdsOf_eq_balance h t l
  exact ⟨hc, fun _ _ => hc.heeds, fun _ _ _ _ => holdsOf_of_waited hs⟩

/-- Thread 1 takes a lock three times and gives it back once. Thread 2 gets it neither by a try nor
by a wait, and is about to give it back all the same. -/
def nested : List Move := List.flatten
  [[.call 0 (.act (.makeLock "a")), .act 0, .call 1 (.lockFor 0 (.ofMillis 100)), .act 1],
    [.call 1 (.act (.tryLock 0)), .act 1, .call 2 (.act (.tryLock 0)), .act 2],
    [.call 1 (.act (.tryLock 0)), .act 1, .call 2 (.lockFor 0 (.ofMillis 100))],
    List.replicate 3 (.act 2), [.call 1 (.unlock 0), .act 1, .tick 100000000, .rouse 2],
    List.replicate 3 (.act 2), [.call 2 (.unlock 0)]]

/-- Thread 3 waits for the lock in vain. -/
def inVain : List Move := List.flatten
  [List.replicate 3 (.act 3), [.tick 100000000, .rouse 3], List.replicate 2 (.act 3)]

theorem refines_counter_nested : ∃ s ns st s', run {} nested = some (s, ns) ∧
    balance 1 0 {} nested = 2 ∧ s.Counts 0 (balance · 0 {} nested) ∧
    (s.phase 2).next 2 s.now s.memory = some st ∧ MutexOp.unlock.succeeds st = false ∧
    s.Heeds 2 0 st (balance · 0 {} nested) ∧
    Returns 3 (.lockFor 0 (.ofMillis 100)) s (.waited .timedOut) s' ∧
    s'.holdsOf 3 0 = s.holdsOf 3 0 + if WaitResult.timedOut = .acquired ∧ 0 = 0 then 1 else 0 := by
  have hx : ∃ s ns, run {} nested = some (s, ns) ∧ s.Reached ∧ balance 1 0 {} nested = 2 ∧
      (((s.phase 2).next 2 s.now s.memory).any fun st =>
        MutexOp.unlock.succeeds st = false) = true ∧
      ((runCall 3 (.lockFor 0 (.ofMillis 100)) s inVain).any fun r =>
        .returned (.waited .timedOut) ∈ r.2) = true :=
    Reached.exists_of_run (by decide +kernel)
  obtain ⟨s, ns, hr, -, hb, hn, hv⟩ := hx
  obtain ⟨st, hst, hsucc⟩ := (Option.any_eq_true _ _).mp hn
  obtain ⟨⟨s', notes⟩, hcall, ho⟩ := (Option.any_eq_true _ _).mp hv
  have hret : Returns 3 (.lockFor 0 (.ofMillis 100)) s (.waited .timedOut) s' :=
    returns_of_runCall hcall (of_decide_eq_true ho)
  obtain ⟨hc, hh, hw⟩ := refines_counter (run_eq_some_iff.mp hr) 0
  exact ⟨s, ns, st, s', hr, hb, hc, hst, of_decide_eq_true hsucc, hh 2 st hst, hret,
    hw 3 _ .timedOut s' hret 0⟩

end System

end KeyedLocks
