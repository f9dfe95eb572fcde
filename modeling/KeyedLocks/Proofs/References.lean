import Mathlib.Data.List.Count
import KeyedLocks.Proofs.Actions
import KeyedLocks.Proofs.Session

/-!
# Counting references

What retaining and forgetting tables do to their counts of references, and to the tables that are
alive. To forget what was retained leads back to the very same memory (`forgoAll_retainAll`).
-/

namespace KeyedLocks

namespace Memory

variable {m : Memory} {t j : TableId}

theorem lt_fresh_of_isAlive (h : m.isAlive t) : t < m.tables.fresh := by
  by_contra hn
  have hd : m.table t = default := Arena.get_of_fresh_le (Nat.le_of_not_lt hn)
  rw [isAlive, hd] at h
  cases h

theorem mem_liveTables : t ∈ m.liveTables ↔ t ∈ m.registry.tracked ∧ m.isAlive t :=
  List.mem_filter

theorem table_retain (m : Memory) (t j : TableId) : (m.retain t).table j =
    { m.table j with references := (m.table j).references + if j = t then 1 else 0 } := by
  rw [retain, table_modifyTable]
  split
  · next h => rw [h]
  · rfl

theorem table_forgo (m : Memory) (t j : TableId) : (m.forgo t).table j =
    { m.table j with references := (m.table j).references - if j = t then 1 else 0 } := by
  rw [forgo, table_modifyTable]
  split
  · next h => rw [h]
  · rfl

theorem table_retainAll (m : Memory) (ts : List TableId) (j : TableId) :
    (m.retainAll ts).table j =
      { m.table j with references := (m.table j).references + ts.count j } := by
  induction ts generalizing m with
  | nil => rfl
  | cons t ts ih =>
    show ((m.retain t).retainAll ts).table j = _
    rw [ih, table_retain, List.count_cons]
    by_cases h : j = t
    · subst h
      simp only [if_true, beq_self_eq_true]
      congr 1
      omega
    · simp only [h, if_false, beq_false_of_ne (Ne.symm h)]
      rfl

theorem table_forgoAll (m : Memory) (ts : List TableId) (j : TableId) :
    (m.forgoAll ts).table j =
      { m.table j with references := (m.table j).references - ts.count j } := by
  induction ts generalizing m with
  | nil => rfl
  | cons t ts ih =>
    show ((m.forgo t).forgoAll ts).table j = _
    rw [ih, table_forgo, List.count_cons]
    by_cases h : j = t
    · subst h
      simp only [if_true, beq_self_eq_true]
      congr 1
      omega
    · simp only [h, if_false, beq_false_of_ne (Ne.symm h)]
      rfl

theorem fresh_foldl_modifyTable {f : Table → Table} {ts : List TableId}
    (h : ∀ t ∈ ts, t < m.tables.fresh) :
    (ts.foldl (modifyTable · · f) m).tables.fresh = m.tables.fresh := by
  induction ts generalizing m with
  | nil => rfl
  | cons t ts ih =>
    have ht : (m.modifyTable t f).tables.fresh = m.tables.fresh := by
      show (m.tables.modify t f).fresh = _
      rw [Arena.fresh_modify]
      exact Nat.max_eq_left (h t (List.mem_cons_self ..))
    rw [List.foldl_cons, ih fun j hj => ht ▸ h j (List.mem_cons_of_mem _ hj), ht]

theorem fresh_retainAll {ts : List TableId} (h : ∀ t ∈ ts, t < m.tables.fresh) :
    (m.retainAll ts).tables.fresh = m.tables.fresh := fresh_foldl_modifyTable h

theorem fresh_forgoAll {ts : List TableId} (h : ∀ t ∈ ts, t < m.tables.fresh) :
    (m.forgoAll ts).tables.fresh = m.tables.fresh := fresh_foldl_modifyTable h

theorem ext_table {m m' : Memory} (hl : m.locks = m'.locks)
    (hf : m.tables.fresh = m'.tables.fresh) (ht : ∀ t, m.table t = m'.table t)
    (hr : m.registry = m'.registry) (hi : m.interrupted = m'.interrupted) : m = m' := by
  obtain ⟨l, ts, r, i⟩ := m
  obtain ⟨l', ts', r', i'⟩ := m'
  obtain rfl : ts = ts' := Arena.ext hf ht
  obtain rfl : l = l' := hl
  obtain rfl : r = r' := hr
  obtain rfl : i = i' := hi
  rfl

/-- To forget what was retained leads back to the same memory. -/
theorem forgoAll_retainAll {ts : List TableId} (h : ∀ t ∈ ts, t < m.tables.fresh) :
    (m.retainAll ts).forgoAll ts = m := by
  have hf : (m.retainAll ts).tables.fresh = m.tables.fresh := fresh_retainAll h
  have h' (t : TableId) (ht : t ∈ ts) : t < (m.retainAll ts).tables.fresh := by
    rw [hf]
    exact h t ht
  apply ext_table
  · rw [locks_forgoAll, locks_retainAll]
  · rw [fresh_forgoAll h', hf]
  · intro j
    rw [table_forgoAll, table_retainAll]
    simp only [Nat.add_sub_cancel]
  · rw [registry_forgoAll, registry_retainAll]
  · rw [interrupted_forgoAll, interrupted_retainAll]

end Memory

/-! ## References of phases -/

/-- The references to tables a thread has in its hands. -/
def Phase.refs : Phase → List TableId
  | .lookUp t _ | .insert t _ => [t]
  | .tryTake a | .readQueue a | .spend a _ | .readClosed a | .backOut a | .notifyBackOut a
  | .discard a => a.table.toList
  | .checking e (.listLocks _ kept _) => e.tables ++ kept
  | .checking e _ | .waiting e _ _ => e.tables
  | .releasing h _ _ => [h.table]
  | .interrupting _ (.listLocks todo) => todo
  | .interrupting _ (.inspect t _ todo) | .interrupting _ (.wake t _ _ todo) => t :: todo
  | .acting (.forgo t) => [t]
  | .idle | .unlocking .. | .notifying _ | .interrupting .. | .acting _ => []

namespace Memory

variable {m : Memory} {t : TableId}

def references (m : Memory) (t : TableId) : Nat := (m.table t).references

theorem isAlive_iff : m.isAlive t ↔ 0 < m.references t := by
  rw [isAlive, references, bne_iff_ne, Nat.pos_iff_ne_zero]

theorem references_retainAll (m : Memory) (ts : List TableId) (t : TableId) :
    (m.retainAll ts).references t = m.references t + ts.count t := by
  rw [references, table_retainAll]
  rfl

theorem references_forgoAll (m : Memory) (ts : List TableId) (t : TableId) :
    (m.forgoAll ts).references t = m.references t - ts.count t := by
  rw [references, table_forgoAll]
  rfl

theorem references_modifyTable {f : Table → Table}
    (hf : (f (m.table t)).references = (m.table t).references) :
    (m.modifyTable t f).references = m.references := by
  funext j
  rw [references, table_modifyTable]
  split
  · next h => rw [hf, h]; rfl
  · rfl

@[simp] theorem references_addEntry (identifier : String) :
    (m.addEntry t identifier).references = m.references :=
  references_modifyTable (m := m.addLock identifier) rfl

@[simp] theorem references_removeEntry (l : LockId) :
    (m.removeEntry t l).references = m.references := by
  refine references_modifyTable ?_
  unfold Table.remove
  split <;> rfl

theorem references_addTable (m : Memory) (policy : Policy) (t : TableId) :
    (m.addTable policy).references t = m.references t + [m.tables.fresh].count t := by
  rw [references, table_addTable, List.count_singleton, references]
  split
  · next h => subst h; rw [table_fresh]; simp; rfl
  · next h => simp [Ne.symm h]

/-- The registry knows every live table. -/
def Tracked (m : Memory) : Prop := ∀ t, m.isAlive t → t ∈ m.registry.tracked

theorem Tracked.of_alive {m' : Memory} (h : m.Tracked) (hr : m'.registry = m.registry)
    (ha : ∀ t, m'.isAlive t → m.isAlive t) : m'.Tracked := by
  intro t ht
  rw [hr]
  exact h t (ha t ht)

theorem Tracked.retainAll (h : m.Tracked) (ts : List TableId) (ha : ∀ t ∈ ts, m.isAlive t) :
    (m.retainAll ts).Tracked := by
  apply h.of_alive (registry_retainAll ..)
  intro t ht
  by_cases hmem : t ∈ ts
  · exact ha t hmem
  · rw [isAlive_iff] at ht ⊢
    rw [references_retainAll, List.count_eq_zero.mpr hmem] at ht
    exact ht

theorem Tracked.addTable (h : m.Tracked) (policy : Policy) : (m.addTable policy).Tracked := by
  intro t ht
  rw [isAlive_iff, references_addTable, List.count_singleton] at ht
  show t ∈ m.registry.tracked.filter m.isAlive ++ [m.tables.fresh]
  rw [List.mem_append, List.mem_filter, List.mem_singleton]
  by_cases hf : t = m.tables.fresh
  · exact .inr hf
  · have ha : m.isAlive t := isAlive_iff.mpr (by simpa [Ne.symm hf] using ht)
    exact .inl ⟨h t ha, ha⟩

end Memory

/-! ## Balances -/

/-- The action that leads from phase `p` to what `st` says makes and drops as many references as it
should, and registers every table it brings to life. -/
structure Balances (m : Memory) (p : Phase) (st : Step) : Prop where
  count : ∀ t, st.memory.references t + p.refs.count t =
    m.references t + (st.phase.refs ++ p.gains st.notes).count t
  tracked : m.Tracked → st.memory.Tracked

section
variable {me : ThreadId} {now : Nat} {m : Memory} {p : Phase} {st : Step}

theorem balances_of_same (hm : st.memory.references = m.references)
    (hr : st.memory.registry = m.registry)
    (hc : st.phase.refs ++ p.gains st.notes = p.refs) : Balances m p st where
  count t := by rw [hm, hc]
  tracked h := by
    apply h.of_alive hr
    intro t ht
    rw [Memory.isAlive_iff] at ht ⊢
    rw [hm] at ht
    exact ht

theorem balances_of_forgoAll (ts : List TableId) {m' : Memory}
    (hr : ∀ t, p.refs.count t ≤ m.references t) (hm : st.memory = m'.forgoAll ts)
    (hm' : m'.references = m.references) (hg : m'.registry = m.registry)
    (hc : ∀ t, p.refs.count t = (st.phase.refs ++ p.gains st.notes).count t + ts.count t) :
    Balances m p st where
  count t := by
    have hle := hr t
    have hcount := hc t
    rw [hm, Memory.references_forgoAll, hm']
    omega
  tracked h := by
    have hreg : st.memory.registry = m.registry := by rw [hm, Memory.registry_forgoAll, hg]
    apply h.of_alive hreg
    intro t ht
    rw [Memory.isAlive_iff] at ht ⊢
    rw [hm, Memory.references_forgoAll, hm'] at ht
    omega

theorem balances_of_retainAll (ts : List TableId) (hm : st.memory = m.retainAll ts)
    (ha : ∀ t ∈ ts, m.isAlive t)
    (hc : ∀ t, (st.phase.refs ++ p.gains st.notes).count t = p.refs.count t + ts.count t) :
    Balances m p st where
  count t := by
    have hcount := hc t
    rw [hm, Memory.references_retainAll]
    omega
  tracked h := by
    rw [hm]
    exact h.retainAll ts ha

theorem Check.Reads.refs {e : Errand} {c c' : Check} (h : c.Reads me m e.lock (.more c')) :
    (Phase.checking e c').refs = (Phase.checking e c).refs := by
  cases h <;> rfl

theorem Check.Reads.refs_of_passed {l : LockId} {c : Check} (h : c.Reads me m l .passed)
    (e : Errand) : (Phase.checking e c).refs = e.tables := by
  cases h <;> rfl

/-- A wait that ends: an interrupted acquisition drops its reference, all others keep it. -/
theorem Errand.conclude_balances {e : Errand} {d : Option Nat} {s : WaitStage} {m' : Memory}
    (hr : ∀ t, e.tables.count t ≤ m.references t) (hm : m'.references = m.references)
    (hg : m'.registry = m.registry) (w : WaitResult) :
    Balances m (.waiting e d s) (e.conclude m' w) := by
  cases e with
  | attempt a left =>
    cases w with
    | acquired | timedOut => exact balances_of_same hm hg (List.append_nil _)
    | interrupted => exact balances_of_forgoAll _ hr rfl hm hg fun _ => (Nat.zero_add _).symm
  | plain l => exact balances_of_same hm hg rfl

theorem addTable_balances {policy : Policy} {unlimited : Bool} (hm : st.memory = m.addTable policy)
    (hp : st.phase = .idle)
    (hg : (Phase.acting (.makeTable policy unlimited)).gains st.notes = [m.tables.fresh]) :
    Balances m (.acting (.makeTable policy unlimited)) st where
  count t := by
    rw [hm, hp, hg]
    exact Memory.references_addTable m policy t
  tracked h := by
    rw [hm]
    exact h.addTable policy

/-- **Every action balances**, if it drops only references there are, and users clone only tables
that are alive. -/
theorem Phase.next_balances (hr : ∀ t, p.refs.count t ≤ m.references t)
    (ha : ∀ t, p = .acting (.retain t) → m.isAlive t) (h : p.next me now m = some st) :
    Balances m p st := by
  have hlive : ∀ t ∈ m.liveTables, m.isAlive t := fun t ht => (Memory.mem_liveTables.mp ht).2
  cases next_acts h with
  -- References are taken.
  | listTables =>
    refine balances_of_retainAll _ rfl hlive fun t => ?_
    exact (congrArg (List.count t) (List.append_nil _)).trans List.count_append
  | seek =>
    refine balances_of_retainAll _ rfl hlive fun t => ?_
    exact (congrArg (List.count t) (List.append_nil _)).trans (Nat.zero_add _).symm
  | @retain t =>
    refine balances_of_retainAll [t] rfl (fun j hj => ?_) fun j => (Nat.zero_add _).symm
    obtain rfl := List.mem_singleton.mp hj
    exact ha _ rfl
  | makeTable | makeUnlimited => exact addTable_balances rfl rfl rfl
  -- References are dropped.
  | queueFull | spent | cycle =>
    exact balances_of_forgoAll _ hr rfl rfl rfl fun _ => (Nat.zero_add _).symm
  | listed =>
    refine balances_of_forgoAll _ hr rfl rfl rfl fun t => ?_
    refine List.count_append.trans (congrArg (· + _) ?_)
    exact (congrArg (List.count t) (List.append_nil _)).symm
  | @inspected _ t todo =>
    refine balances_of_forgoAll [t] hr rfl rfl rfl fun j => ?_
    show List.count j ([t] ++ todo) = List.count j (todo ++ []) + _
    rw [List.append_nil, List.count_append, Nat.add_comm]
  | @forgo t => exact balances_of_forgoAll [t] hr rfl rfl rfl fun _ => (Nat.zero_add _).symm
  | @refuse g | @refuseGuard g | @yield g | @unprobe g | @unprobeFails g | @disposed g =>
    exact balances_of_forgoAll [g.table] hr rfl rfl rfl fun _ => (Nat.zero_add _).symm
  | acquire | heed | timeOut | grab => refine Errand.conclude_balances hr ?_ ?_ _ <;> rfl
  -- The reference of an acquisition that succeeds goes into the handle.
  | grant _ ht => exact balances_of_same rfl rfl (by rw [refs, ht]; rfl)
  | live _ ht | closed ht => exact balances_of_same rfl rfl (by rw [refs, ht]; rfl)
  -- References stay where they are.
  | create => exact balances_of_same (Memory.references_addEntry _) rfl rfl
  | discard ht =>
    exact balances_of_same (Memory.references_removeEntry _) rfl (by rw [refs, ht]; rfl)
  | remove | replaced => exact balances_of_same (Memory.references_removeEntry _) rfl rfl
  | check hc => exact balances_of_same rfl rfl ((List.append_nil _).trans hc.refs)
  | pass hc =>
    exact balances_of_same rfl rfl (by rw [hc.refs_of_passed]; exact List.append_nil _)
  | clear hc => exact balances_of_same rfl rfl (by rw [hc.refs_of_passed]; rfl)
  | listLocks | spot | passOver | wake | take | miss | room | spend | shut | backOut | backOutLast
  | backOutFails | backedOut | enter | drowse | sleep | rise =>
    exact balances_of_same rfl rfl (List.append_nil _)
  | _ => exact balances_of_same rfl rfl rfl

end

end KeyedLocks
