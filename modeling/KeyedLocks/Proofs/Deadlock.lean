import KeyedLocks.Deadlock
import KeyedLocks.Proofs.Memory
import KeyedLocks.Proofs.Search

/-!
# Verdicts on snapshots

`Blocks locks h w`: in the snapshot, `w` waits for a lock `h` owns. A wait on a lock closes a cycle
when a chain of these leads from the thread that asks to the owner of the lock (`ClosesCycle`).
`wouldDeadlock` says so just then. `Memory.Deadlocked` speaks of the snapshot that has the locks of
all live tables.
-/

namespace KeyedLocks

variable {me h w : ThreadId} {target : Mutex} {locks : List Mutex}

/-- `w` waits for some lock of the snapshot that `h` owns. -/
def Blocks (locks : List Mutex) (h w : ThreadId) : Prop :=
  ∃ m ∈ locks, m.owner = some h ∧ w ∈ m.waiters

instance (locks : List Mutex) (h w : ThreadId) : Decidable (Blocks locks h w) :=
  inferInstanceAs (Decidable (∃ m ∈ locks, m.owner = some h ∧ w ∈ m.waiters))

/-- The owner of `target` is someone else, who waits for a lock of `me`, or for a thread that waits
for one, and so on. -/
def ClosesCycle (me : ThreadId) (target : Mutex) (locks : List Mutex) : Prop :=
  ∃ o, target.owner = some o ∧ o ≠ me ∧ Relation.TransGen (Blocks locks) me o

theorem edge_waitGraph : (waitGraph locks).Edge h w ↔ Blocks locks h w := by
  show (h, w) ∈ locks.flatMap _ ↔ _
  rw [List.mem_flatMap]
  refine exists_congr fun m => and_congr_right fun _ => ?_
  split
  · next ho => simp [ho]
  · next o ho =>
    rw [ho, List.mem_map]
    constructor
    · rintro ⟨w', hw, he⟩
      obtain ⟨rfl, rfl⟩ := Prod.mk.inj he
      exact ⟨rfl, hw⟩
    · rintro ⟨he, hw⟩
      obtain rfl := Option.some.inj he
      exact ⟨w, hw, rfl⟩

theorem edge_waitGraph_eq : (waitGraph locks).Edge = Blocks locks :=
  funext fun _ => funext fun _ => propext edge_waitGraph

theorem wouldDeadlock_iff : wouldDeadlock me target locks = true ↔ ClosesCycle me target locks := by
  unfold wouldDeadlock ClosesCycle
  split
  · next ho =>
    rw [ho]
    constructor
    · intro hf
      cases hf
    · rintro ⟨o, ho, -⟩
      cases ho
  · next o ho =>
    rw [ho, Bool.and_eq_true, decide_eq_true_eq, decide_eq_true_eq]
    show _ ∧ o ∈ (waitGraph locks).transitiveWaiters me ↔ _
    rw [WaitGraph.mem_transitiveWaiters, edge_waitGraph_eq]
    constructor
    · rintro ⟨hne, hc⟩
      exact ⟨o, rfl, hne, hc⟩
    · rintro ⟨o', ho', hne, hc⟩
      obtain rfl := Option.some.inj ho'
      exact ⟨hne, hc⟩

namespace Memory

/-- The mutexes of the locks of all live tables. -/
def snapshot (m : Memory) : List Mutex := m.liveLocks.map fun l => (m.lock l).mutex

/-- A wait of `me` on `target` would close a cycle through the locks of the live tables. -/
def Deadlocked (m : Memory) (me : ThreadId) (target : LockId) : Prop :=
  ClosesCycle me (m.lock target).mutex m.snapshot

theorem blocks_snapshot {m : Memory} : Blocks m.snapshot h w ↔
    ∃ l ∈ m.liveLocks, (m.lock l).mutex.owner = some h ∧ w ∈ (m.lock l).mutex.waiters := by
  constructor
  · rintro ⟨k, hk, hb⟩
    obtain ⟨l, hl, rfl⟩ := List.mem_map.mp hk
    exact ⟨l, hl, hb⟩
  · rintro ⟨l, hl, hb⟩
    exact ⟨_, List.mem_map_of_mem hl, hb⟩

/-- The threads that wait for those of the locks that `holder` owns. -/
def waitersIn (m : Memory) (holder : ThreadId) (ls : List LockId) : List ThreadId :=
  ls.flatMap fun l =>
    if (m.lock l).mutex.isHeldBy holder then (m.lock l).mutex.waiters else []

theorem mem_waitersIn {m : Memory} :
    w ∈ m.waitersIn h m.liveLocks ↔ (waitGraph m.snapshot).Edge h w := by
  unfold waitersIn
  rw [edge_waitGraph, blocks_snapshot, List.mem_flatMap]
  refine exists_congr fun l => and_congr_right fun _ => ?_
  simp only [Mutex.isHeldBy, beq_iff_eq]
  split
  · next ho => simp only [ho, true_and]
  · next ho => simp only [ho, false_and, List.not_mem_nil]

/-- The next lock that a scan reads is one of `holder`, and its waiters are read as well. -/
theorem waitersIn_of_held {m : Memory} {l : LockId} (hl : (m.lock l).mutex.isHeldBy h)
    (ls : List LockId) :
    m.waitersIn h (ls ++ [l]) = m.waitersIn h ls ++ (m.lock l).mutex.waiters := by
  simp [waitersIn, hl]

theorem waitersIn_of_not_held {m : Memory} {l : LockId} (hl : ¬ (m.lock l).mutex.isHeldBy h)
    (ls : List LockId) : m.waitersIn h (ls ++ [l]) = m.waitersIn h ls := by
  simp [waitersIn, hl]

end Memory

end KeyedLocks
