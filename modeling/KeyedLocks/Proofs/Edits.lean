import KeyedLocks.Proofs.References
import KeyedLocks.Proofs.Runs

/-!
# What actions write

`Memory.Edits L T m m'` says that `m'` comes from `m` by changes of locks in `L`, of the entries of
tables in `T`, of counts of references and of flags, and by new locks and tables.
`Phase.next_edits` says that an action makes such changes, on the locks and the tables of its phase
(`Phase.locks`, `Phase.tables`). So it leaves all other locks and tables as they are, and the
registry lists every table at most once (`Memory.Listed`). No table ever gets another policy
(`Memory.Edits.policy_eq`).
-/

namespace KeyedLocks

/-! ## Chains of changes -/

/-- Changes of locks in `L` and of entries in `T`, and whatever else does not bear on locks. -/
inductive Memory.Edits (L : LockId → Prop) (T : TableId → Prop) (m : Memory) : Memory → Prop where
  | refl : Edits L T m m
  | lock {m' : Memory} {l : LockId} (f : Lock → Lock) : Edits L T m m' → L l →
      Edits L T m (m'.modifyLock l f)
  | entries {m' : Memory} {t : TableId} (f : List (String × LockId) → List (String × LockId)) :
      Edits L T m m' → T t →
      Edits L T m (m'.modifyTable t fun x => { x with entries := f x.entries })
  | references {m' : Memory} {t : TableId} (f : Nat → Nat) : Edits L T m m' →
      Edits L T m (m'.modifyTable t fun x => { x with references := f x.references })
  | addLock {m' : Memory} (identifier : String) : Edits L T m m' →
      Edits L T m (m'.addLock identifier)
  | addTable {m' : Memory} (policy : Policy) : Edits L T m m' → Edits L T m (m'.addTable policy)
  | flags {m' : Memory} (fs : List ThreadId) : Edits L T m m' →
      Edits L T m { m' with interrupted := fs }

namespace Memory

variable {L : LockId → Prop} {T : TableId → Prop} {m m' m'' : Memory}

theorem Edits.retain (h : m.Edits L T m') (t : TableId) : m.Edits L T (m'.retain t) :=
  .references (· + 1) h

theorem Edits.forgo (h : m.Edits L T m') (t : TableId) : m.Edits L T (m'.forgo t) :=
  .references (· - 1) h

theorem Edits.retainAll (h : m.Edits L T m') (ts : List TableId) :
    m.Edits L T (m'.retainAll ts) := by
  induction ts generalizing m' with
  | nil => exact h
  | cons t ts ih => exact ih (h.retain t)

theorem Edits.forgoAll (h : m.Edits L T m') (ts : List TableId) :
    m.Edits L T (m'.forgoAll ts) := by
  induction ts generalizing m' with
  | nil => exact h
  | cons t ts ih => exact ih (h.forgo t)

theorem Edits.insert (h : m.Edits L T m') {t : TableId} (identifier : String) (l : LockId)
    (ht : T t) : m.Edits L T (m'.modifyTable t (·.insert identifier l)) :=
  .entries (· ++ [(identifier, l)]) h ht

theorem Edits.removeEntry (h : m.Edits L T m') {t : TableId} (l : LockId) (ht : T t) :
    m.Edits L T (m'.removeEntry t l) := by
  have hf : (fun x : Table => x.remove (m'.lock l).identifier l) = fun x =>
      { x with entries := if x.entries.lookup (m'.lock l).identifier == some l then
        x.entries.filter (·.1 ≠ (m'.lock l).identifier) else x.entries } := by
    funext x
    unfold Table.remove Table.holds Table.find?
    split <;> rfl
  rw [Memory.removeEntry, hf]
  exact .entries (fun es => if es.lookup (m'.lock l).identifier == some l then
    es.filter (·.1 ≠ (m'.lock l).identifier) else es) h ht

theorem Edits.interrupt (h : m.Edits L T m') (t : ThreadId) : m.Edits L T (m'.interrupt t) :=
  .flags _ h

theorem Edits.clearInterrupt (h : m.Edits L T m') (t : ThreadId) :
    m.Edits L T (m'.clearInterrupt t) := .flags _ h

theorem Edits.trans (h : m.Edits L T m') (h' : m'.Edits L T m'') : m.Edits L T m'' := by
  induction h' with
  | refl => exact h
  | lock f _ hl ih => exact .lock f ih hl
  | entries f _ ht ih => exact .entries f ih ht
  | references f _ ih => exact .references f ih
  | addLock i _ ih => exact .addLock i ih
  | addTable p _ ih => exact .addTable p ih
  | flags fs _ ih => exact .flags fs ih

theorem Edits.mono (h : m.Edits L T m') {L' : LockId → Prop} {T' : TableId → Prop}
    (hl : ∀ l, L l → L' l) (ht : ∀ t, T t → T' t) : m.Edits L' T' m' := by
  induction h with
  | refl => exact .refl
  | lock f _ h ih => exact .lock f ih (hl _ h)
  | entries f _ h ih => exact .entries f ih (ht _ h)
  | references f _ ih => exact .references f ih
  | addLock i _ ih => exact .addLock i ih
  | addTable p _ ih => exact .addTable p ih
  | flags fs _ ih => exact .flags fs ih

/-! ## What they spare -/

theorem Edits.fresh_le (h : m.Edits L T m') :
    m.locks.fresh ≤ m'.locks.fresh ∧ m.tables.fresh ≤ m'.tables.fresh := by
  induction h with
  | refl => exact ⟨Nat.le_refl _, Nat.le_refl _⟩
  | lock f _ _ ih => exact ⟨Nat.le_trans ih.1 (fresh_modifyLock_ge ..), ih.2⟩
  | entries _ _ _ ih | references _ _ ih =>
    exact ⟨ih.1, Nat.le_trans ih.2 (fresh_modifyTable_ge ..)⟩
  | addLock i _ ih => exact ⟨Nat.le_succ_of_le ih.1, ih.2⟩
  | addTable p _ ih => exact ⟨ih.1, Nat.le_succ_of_le ih.2⟩
  | flags fs _ ih => exact ih

theorem Edits.lock_eq (h : m.Edits L T m') {l : LockId} (hl : ¬ L l) (hf : l < m.locks.fresh) :
    m'.lock l = m.lock l := by
  induction h with
  | refl => rfl
  | lock f _ hj ih =>
    rw [lock_modifyLock, if_neg (by rintro rfl; exact hl hj)]
    exact ih
  | addLock i h ih =>
    rw [lock_addLock, if_neg (Nat.ne_of_lt (Nat.lt_of_lt_of_le hf h.fresh_le.1))]
    exact ih
  | entries _ _ _ ih | references _ _ ih | addTable _ _ ih | flags _ _ ih => exact ih

theorem Edits.entries_eq (h : m.Edits L T m') {t : TableId} (ht : ¬ T t)
    (hf : t < m.tables.fresh) : (m'.table t).entries = (m.table t).entries := by
  induction h with
  | refl => rfl
  | entries f _ hj ih =>
    rw [table_modifyTable, if_neg (by rintro rfl; exact ht hj)]
    exact ih
  | references f _ ih =>
    rw [table_modifyTable]
    split
    · next he => subst he; exact ih
    · exact ih
  | addTable p h ih =>
    rw [table_addTable, if_neg (Nat.ne_of_lt (Nat.lt_of_lt_of_le hf h.fresh_le.2))]
    exact ih
  | lock _ _ _ ih | addLock _ _ ih | flags _ _ ih => exact ih

theorem Edits.policy_eq (h : m.Edits L T m') {t : TableId} (hf : t < m.tables.fresh) :
    (m'.table t).policy = (m.table t).policy := by
  induction h with
  | refl => rfl
  | entries f _ _ ih | references f _ ih =>
    rw [table_modifyTable]
    split
    · next he => subst he; exact ih
    · exact ih
  | addTable p h ih =>
    rw [table_addTable, if_neg (Nat.ne_of_lt (Nat.lt_of_lt_of_le hf h.fresh_le.2))]
    exact ih
  | lock _ _ _ ih | addLock _ _ ih | flags _ _ ih => exact ih

/-! ## Lists without repetitions -/

/-- The registry lists each table once, and none that was not made. -/
structure Listed (m : Memory) : Prop where
  nodup : m.registry.tracked.Nodup
  made : ∀ t ∈ m.registry.tracked, t < m.tables.fresh

theorem Listed.edits (hm : m.Listed) (h : m.Edits L T m') : m'.Listed := by
  induction h with
  | refl => exact hm
  | entries _ _ _ ih | references _ _ ih =>
    exact ⟨ih.nodup, fun j hj => Nat.lt_of_lt_of_le (ih.made j hj) (fresh_modifyTable_ge ..)⟩
  | @addTable m' p _ ih =>
    have hnodup : (m'.registry.tracked.filter m'.isAlive).Nodup := ih.nodup.filter _
    constructor
    · show (m'.registry.tracked.filter m'.isAlive ++ [m'.tables.fresh]).Nodup
      rw [List.nodup_append]
      refine ⟨hnodup, List.pairwise_singleton .., fun j hj k hk => ?_⟩
      rw [List.mem_singleton.mp hk]
      exact Nat.ne_of_lt (ih.made j (List.mem_filter.mp hj).1)
    · intro j hj
      rcases List.mem_append.mp hj with hj | hj
      · exact Nat.lt_succ_of_lt (ih.made j (List.mem_filter.mp hj).1)
      · rw [List.mem_singleton.mp hj]
        exact Nat.lt_succ_self _
  | lock _ _ _ ih | addLock _ _ ih | flags _ _ ih => exact ⟨ih.nodup, ih.made⟩

end Memory

/-! ## What a phase works on -/

/-- The locks an action may change. -/
def Phase.locks : Phase → List LockId
  | .tryTake a | .readQueue a | .spend a _ | .readClosed a | .backOut a | .notifyBackOut a
  | .discard a => [a.lock]
  | .waiting e _ _ => [e.lock]
  | .releasing h _ _ => [h.lock]
  | .unlocking l _ | .notifying l | .interrupting _ (.wake _ l _ _) | .acting (.tryLock l)
  | .acting (.wake l) | .acting (.close l) => [l]
  | .idle | .lookUp .. | .insert .. | .checking .. | .interrupting .. | .acting _ => []

/-- The tables whose entries an action may change. -/
def Phase.tables : Phase → List TableId
  | .insert t _ => [t]
  | .discard a => a.table.toList
  | .releasing h _ _ => [h.table]
  | _ => []

section
variable {me : ThreadId} {now : Nat} {m : Memory} {p : Phase} {st : Step}

/-- The changes that phase `p` stands for. -/
abbrev Phase.Edits (p : Phase) (m m' : Memory) : Prop := m.Edits (· ∈ p.locks) (· ∈ p.tables) m'

open Memory.Edits (refl lock addLock)

theorem Errand.edits_conclude {e : Errand} {m' : Memory} (h : p.Edits m m') (r : WaitResult) :
    p.Edits m (e.conclude m' r).memory := by
  cases e with
  | attempt a left =>
    cases r with
    | interrupted => exact h.forgoAll _
    | acquired | timedOut => exact h
  | plain l => exact h

/-- **An action writes what its phase stands for.** -/
theorem Phase.next_edits (h : p.next me now m = some st) : p.Edits m st.memory := by
  have hone {l : LockId} : l ∈ [l] := List.mem_singleton_self l
  cases next_acts h with
  | create => exact (addLock _ refl).insert _ _ hone
  | take | backOut | backOutLast | backedOut | rise | unlock | unlockLast | notify | probe | close
  | unprobeLast | give | giveLast | given | wake | tried | woken | closeRaw =>
    exact lock _ refl hone
  | unprobe | disposed => exact (lock _ refl hone).forgo _
  | refuse | refuseGuard | yield | unprobeFails | inspected | forgo => exact refl.forgo _
  | queueFull | spent | listed | cycle => exact refl.forgoAll _
  | retain => exact refl.retain _
  | listTables | seek => exact refl.retainAll _
  | discard ht =>
    refine refl.removeEntry _ ?_
    rw [Phase.tables, ht]
    exact hone
  | remove | replaced => exact refl.removeEntry _ hone
  | acquire | timeOut | grab => exact Errand.edits_conclude (lock _ refl hone) _
  | heed => exact Errand.edits_conclude (lock _ (refl.clearInterrupt me) hone) _
  | enter | sleep => exact lock _ (lock _ refl hone) hone
  | raise => exact refl.interrupt _
  | cleared => exact refl.clearInterrupt _
  | makeTable | makeUnlimited => exact .addTable _ refl
  | makeLock => exact addLock _ refl
  | _ => exact refl

end

theorem Call.begin_edits (c : Call) (now : Nat) (m : Memory) (L : LockId → Prop)
    (T : TableId → Prop) : m.Edits L T (c.begin now m).1 := by
  cases c with
  | obtain | release => exact Memory.Edits.refl.retain _
  | dropGuard | take | give | lockFor | unlock | checkDeadlock | interrupt | act => exact .refl

/-- **The registry lists no table twice.** -/
theorem System.Reached.listed {s : System} (h : s.Reached) : s.memory.Listed := by
  refine h.induct (p := fun s => s.memory.Listed) ⟨List.nodup_nil, nofun⟩ ?_
  intro s s' m _ hl hm
  cases hm with
  | @call t c => exact hl.edits (c.begin_edits s.now s.memory (fun _ => False) (fun _ => False))
  | act hst => exact hl.edits (Phase.next_edits hst)
  | rouse => exact ⟨hl.nodup, hl.made⟩
  | tick => exact hl

end KeyedLocks
