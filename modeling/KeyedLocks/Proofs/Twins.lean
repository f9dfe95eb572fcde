import Mathlib.Data.List.Forall2
import KeyedLocks.Proofs.Answers
import KeyedLocks.Proofs.Edits

/-!
# Memories that agree on some locks and tables

A `Pairing` says which locks and tables of two memories belong together. `Memory.Twins π m m'`: what
belongs together reads the same, up to the numbers of locks and tables. `Phase.Twin π p q`: the
phases `p` and `q` differ in such numbers only. Threads in twin phases then do the same
(`Phase.Twin.next`), apart from deadlock checks, which look at all that lives. A memory may change
elsewhere meanwhile (`Memory.Twins.edits`).
-/

namespace KeyedLocks

/-- Which locks and tables belong together. -/
structure Pairing where
  lock : LockId → LockId → Prop
  table : TableId → TableId → Prop

namespace Pairing

/-- An entry of a table and its twin. -/
def entry (π : Pairing) (e e' : String × LockId) : Prop := e'.1 = e.1 ∧ π.lock e.2 e'.2

def addLock (π : Pairing) (l l' : LockId) : Pairing :=
  { π with lock := fun k k' => π.lock k k' ∨ k = l ∧ k' = l' }

def addTable (π : Pairing) (t t' : TableId) : Pairing :=
  { π with table := fun j j' => π.table j j' ∨ j = t ∧ j' = t' }

/-- What belongs together goes on to, and the new ones are those that `m` and `m'` make next. -/
structure Grows (π : Pairing) (m m' : Memory) (ρ : Pairing) : Prop where
  lock : ∀ {l l'}, π.lock l l' → ρ.lock l l'
  table : ∀ {t t'}, π.table t t' → ρ.table t t'
  new_lock : ∀ {l l'}, ρ.lock l l' → π.lock l l' ∨ l = m.locks.fresh ∧ l' = m'.locks.fresh
  new_table : ∀ {t t'}, ρ.table t t' → π.table t t' ∨ t = m.tables.fresh ∧ t' = m'.tables.fresh

variable {π : Pairing} {m m' : Memory}

theorem Grows.refl : π.Grows m m' π := ⟨id, id, .inl, .inl⟩

theorem grows_addLock : π.Grows m m' (π.addLock m.locks.fresh m'.locks.fresh) :=
  ⟨.inl, id, id, .inl⟩

theorem grows_addTable : π.Grows m m' (π.addTable m.tables.fresh m'.tables.fresh) :=
  ⟨id, .inl, .inl, id⟩

end Pairing

/-! ## Memories -/

/-- What belongs together reads the same, and there are no interrupts. -/
structure Memory.Twins (π : Pairing) (m m' : Memory) : Prop where
  lock : ∀ {l l'}, π.lock l l' → m'.lock l' = m.lock l
  policy : ∀ {t t'}, π.table t t' → (m'.table t').policy = (m.table t).policy
  entries : ∀ {t t'}, π.table t t' →
    List.Forall₂ π.entry (m.table t).entries (m'.table t').entries
  lock_iff : ∀ {l l' k k'}, π.lock l l' → π.lock k k' → (l = k ↔ l' = k')
  table_iff : ∀ {t t' j j'}, π.table t t' → π.table j j' → (t = j ↔ t' = j')
  lock_known : ∀ {l l'}, π.lock l l' → l < m.locks.fresh ∧ l' < m'.locks.fresh
  table_known : ∀ {t t'}, π.table t t' → t < m.tables.fresh ∧ t' < m'.tables.fresh
  quiet : m.interrupted = [] ∧ m'.interrupted = []

namespace Memory.Twins

variable {π : Pairing} {m m' m₁ m₁' : Memory} {l l' : LockId} {t t' : TableId}

theorem edits (h : m.Twins π m') {L L' : LockId → Prop} {T T' : TableId → Prop}
    (he : m.Edits L T m₁) (he' : m'.Edits L' T' m₁')
    (hl : ∀ l l', π.lock l l' → ¬ L l ∧ ¬ L' l') (ht : ∀ t t', π.table t t' → ¬ T t ∧ ¬ T' t')
    (hq : m₁.interrupted = [] ∧ m₁'.interrupted = []) : m₁.Twins π m₁' where
  lock hk := by
    rw [he.lock_eq (hl _ _ hk).1 (h.lock_known hk).1, he'.lock_eq (hl _ _ hk).2 (h.lock_known hk).2,
      h.lock hk]
  policy hj := by
    rw [he.policy_eq (h.table_known hj).1, he'.policy_eq (h.table_known hj).2, h.policy hj]
  entries hj := by
    rw [he.entries_eq (ht _ _ hj).1 (h.table_known hj).1,
      he'.entries_eq (ht _ _ hj).2 (h.table_known hj).2]
    exact h.entries hj
  lock_iff := h.lock_iff
  table_iff := h.table_iff
  lock_known hk := ⟨Nat.lt_of_lt_of_le (h.lock_known hk).1 he.fresh_le.1,
    Nat.lt_of_lt_of_le (h.lock_known hk).2 he'.fresh_le.1⟩
  table_known hj := ⟨Nat.lt_of_lt_of_le (h.table_known hj).1 he.fresh_le.2,
    Nat.lt_of_lt_of_le (h.table_known hj).2 he'.fresh_le.2⟩
  quiet := hq

theorem references (h : m.Twins π m') (he : m.Edits (fun _ => False) (fun _ => False) m₁)
    (he' : m'.Edits (fun _ => False) (fun _ => False) m₁') (hq : m₁.interrupted = m.interrupted)
    (hq' : m₁'.interrupted = m'.interrupted) : m₁.Twins π m₁' :=
  h.edits he he' (fun _ _ _ => ⟨id, id⟩) (fun _ _ _ => ⟨id, id⟩)
    ⟨hq.trans h.quiet.1, hq'.trans h.quiet.2⟩

theorem retain (h : m.Twins π m') (t t' : TableId) : (m.retain t).Twins π (m'.retain t') :=
  h.references (.retain .refl t) (.retain .refl t') rfl rfl

theorem forgo (h : m.Twins π m') (t t' : TableId) : (m.forgo t).Twins π (m'.forgo t') :=
  h.references (.forgo .refl t) (.forgo .refl t') rfl rfl

theorem forgoAll (h : m.Twins π m') (ts ts' : List TableId) :
    (m.forgoAll ts).Twins π (m'.forgoAll ts') :=
  h.references (.forgoAll .refl ts) (.forgoAll .refl ts') (interrupted_forgoAll ..)
    (interrupted_forgoAll ..)

theorem modifyLock (h : m.Twins π m') (hl : π.lock l l') (f : Lock → Lock) :
    (m.modifyLock l f).Twins π (m'.modifyLock l' f) where
  lock hk := by
    rw [lock_modifyLock, lock_modifyLock, h.lock hl, h.lock hk]
    simp only [h.lock_iff hk hl]
  policy := h.policy
  entries := h.entries
  lock_iff := h.lock_iff
  table_iff := h.table_iff
  lock_known hk := ⟨Nat.lt_of_lt_of_le (h.lock_known hk).1 (fresh_modifyLock_ge ..),
    Nat.lt_of_lt_of_le (h.lock_known hk).2 (fresh_modifyLock_ge ..)⟩
  table_known := h.table_known
  quiet := h.quiet

theorem critical {α : Type} (h : m.Twins π m') (hl : π.lock l l')
    (hfree : (m.lock l).latch = none) (f : Lock → α) :
    m'.critical l' f = some (f (m.lock l)) := by
  rw [← h.lock hl] at hfree ⊢
  exact critical_eq_some_iff.mpr ⟨hfree, rfl⟩

/-! ### Tables -/

theorem find? (h : m.Twins π m') (ht : π.table t t') (identifier : String) :
    Option.Rel π.lock ((m.table t).find? identifier) ((m'.table t').find? identifier) := by
  have hentries := h.entries ht
  unfold Table.find?
  generalize (m.table t).entries = es, (m'.table t').entries = es' at hentries
  induction hentries with
  | nil => exact .none
  | @cons e e' es es' he _ ih =>
    rw [List.lookup_cons, List.lookup_cons, he.1]
    split
    · exact .some he.2
    · exact ih

theorem locks (h : m.Twins π m') (ht : π.table t t') :
    List.Forall₂ π.lock (m.table t).locks (m'.table t').locks := by
  rw [Table.locks, Table.locks, List.forall₂_map_left_iff, List.forall₂_map_right_iff]
  exact (h.entries ht).imp fun _ _ he => he.2

theorem addLock (h : m.Twins π m') (identifier : String) : (m.addLock identifier).Twins
    (π.addLock m.locks.fresh m'.locks.fresh) (m'.addLock identifier) where
  lock := by
    rintro l l' (hl | ⟨rfl, rfl⟩)
    · rw [lock_addLock, lock_addLock, if_neg (Nat.ne_of_lt (h.lock_known hl).1),
        if_neg (Nat.ne_of_lt (h.lock_known hl).2), h.lock hl]
    · rw [lock_addLock, lock_addLock, if_pos rfl, if_pos rfl]
  policy := h.policy
  entries hj := (h.entries hj).imp fun _ _ he => ⟨he.1, .inl he.2⟩
  lock_iff := by
    rintro l l' k k' (hl | ⟨rfl, rfl⟩) (hk | ⟨rfl, rfl⟩)
    · exact h.lock_iff hl hk
    · exact iff_of_false (Nat.ne_of_lt (h.lock_known hl).1) (Nat.ne_of_lt (h.lock_known hl).2)
    · exact iff_of_false (Nat.ne_of_gt (h.lock_known hk).1) (Nat.ne_of_gt (h.lock_known hk).2)
    · exact ⟨fun _ => rfl, fun _ => rfl⟩
  table_iff := h.table_iff
  lock_known := by
    rintro l l' (hl | ⟨rfl, rfl⟩)
    · exact ⟨Nat.lt_succ_of_lt (h.lock_known hl).1, Nat.lt_succ_of_lt (h.lock_known hl).2⟩
    · exact ⟨Nat.lt_succ_self _, Nat.lt_succ_self _⟩
  table_known := h.table_known
  quiet := h.quiet

/-- The same is done to the entries of two tables that belong together. -/
theorem modifyTable (h : m.Twins π m') (ht : π.table t t') {f f' : Table → Table}
    (hp : (f (m.table t)).policy = (m.table t).policy ∧
      (f' (m'.table t')).policy = (m'.table t').policy)
    (he : List.Forall₂ π.entry (f (m.table t)).entries (f' (m'.table t')).entries) :
    (m.modifyTable t f).Twins π (m'.modifyTable t' f') where
  lock := h.lock
  policy {j _} hj := by
    rw [table_modifyTable, table_modifyTable]
    by_cases hjt : j = t
    · rw [if_pos hjt, if_pos ((h.table_iff hj ht).mp hjt), hp.1, hp.2, h.policy ht]
    · rw [if_neg hjt, if_neg fun he => hjt ((h.table_iff hj ht).mpr he), h.policy hj]
  entries {j _} hj := by
    rw [table_modifyTable, table_modifyTable]
    by_cases hjt : j = t
    · rw [if_pos hjt, if_pos ((h.table_iff hj ht).mp hjt)]
      exact he
    · rw [if_neg hjt, if_neg fun he => hjt ((h.table_iff hj ht).mpr he)]
      exact h.entries hj
  lock_iff := h.lock_iff
  table_iff := h.table_iff
  lock_known := h.lock_known
  table_known hj := by
    have hle (m : Memory) (t : TableId) (f : Table → Table) :
        m.tables.fresh ≤ (m.modifyTable t f).tables.fresh := by
      rw [Memory.modifyTable, Arena.fresh_modify]
      exact Nat.le_max_left ..
    exact ⟨Nat.lt_of_lt_of_le (h.table_known hj).1 (hle ..),
      Nat.lt_of_lt_of_le (h.table_known hj).2 (hle ..)⟩
  quiet := h.quiet

theorem addEntry (h : m.Twins π m') (ht : π.table t t') (identifier : String) :
    (m.addEntry t identifier).Twins (π.addLock m.locks.fresh m'.locks.fresh)
      (m'.addEntry t' identifier) := by
  have hadd := h.addLock identifier
  refine hadd.modifyTable ht ⟨rfl, rfl⟩ ?_
  exact List.rel_append (hadd.entries ht) (.cons ⟨rfl, .inr ⟨rfl, rfl⟩⟩ .nil)

theorem holds (h : m.Twins π m') (ht : π.table t t') (hl : π.lock l l') (identifier : String) :
    (m'.table t').holds identifier l' = (m.table t).holds identifier l := by
  have hfind := h.find? ht identifier
  unfold Table.holds
  generalize (m.table t).find? identifier = o, (m'.table t').find? identifier = o' at hfind
  cases hfind with
  | none => rfl
  | @some k k' hk => simp only [beq_eq_decide, Option.some.injEq, h.lock_iff hk hl]

theorem removeEntry (h : m.Twins π m') (ht : π.table t t') (hl : π.lock l l') :
    (m.removeEntry t l).Twins π (m'.removeEntry t' l') := by
  unfold Memory.removeEntry
  rw [h.lock hl]
  refine h.modifyTable ht ?_ ?_
  · unfold Table.remove
    constructor <;> split <;> rfl
  · unfold Table.remove
    rw [h.holds ht hl]
    split
    · refine List.rel_filter (fun e e' he => ?_) (h.entries ht)
      dsimp only
      rw [he.1]
    · exact h.entries ht

theorem addTable (h : m.Twins π m') (policy : Policy) : (m.addTable policy).Twins
    (π.addTable m.tables.fresh m'.tables.fresh) (m'.addTable policy) where
  lock := h.lock
  policy := by
    rintro j j' (hj | ⟨rfl, rfl⟩)
    · rw [table_addTable, table_addTable, if_neg (Nat.ne_of_lt (h.table_known hj).1),
        if_neg (Nat.ne_of_lt (h.table_known hj).2), h.policy hj]
    · rw [table_addTable, table_addTable, if_pos rfl, if_pos rfl]
  entries := by
    rintro j j' (hj | ⟨rfl, rfl⟩)
    · rw [table_addTable, table_addTable, if_neg (Nat.ne_of_lt (h.table_known hj).1),
        if_neg (Nat.ne_of_lt (h.table_known hj).2)]
      exact h.entries hj
    · rw [table_addTable, table_addTable, if_pos rfl, if_pos rfl]
      exact .nil
  lock_iff := h.lock_iff
  table_iff := by
    rintro t t' j j' (ht | ⟨rfl, rfl⟩) (hj | ⟨rfl, rfl⟩)
    · exact h.table_iff ht hj
    · exact iff_of_false (Nat.ne_of_lt (h.table_known ht).1) (Nat.ne_of_lt (h.table_known ht).2)
    · exact iff_of_false (Nat.ne_of_gt (h.table_known hj).1) (Nat.ne_of_gt (h.table_known hj).2)
    · exact ⟨fun _ => rfl, fun _ => rfl⟩
  lock_known := h.lock_known
  table_known := by
    rintro j j' (hj | ⟨rfl, rfl⟩)
    · exact ⟨Nat.lt_succ_of_lt (h.table_known hj).1, Nat.lt_succ_of_lt (h.table_known hj).2⟩
    · exact ⟨Nat.lt_succ_self _, Nat.lt_succ_self _⟩
  quiet := h.quiet

/-! ### What one may ask -/

theorem activeLocks (h : m.Twins π m') (ht : π.table t t') :
    m'.activeLocks t' = m.activeLocks t := (h.entries ht).length_eq.symm

theorem entry? (h : m.Twins π m') (ht : π.table t t') (identifier : String) :
    m'.entry? t' identifier = m.entry? t identifier := by
  have hfind := h.find? ht identifier
  unfold Memory.entry?
  generalize (m.table t).find? identifier = o, (m'.table t').find? identifier = o' at hfind
  cases hfind with
  | none => rfl
  | some hk => rw [Option.map_some, Option.map_some, h.lock hk]

end Memory.Twins

/-! ## Phases -/

section
variable (π : Pairing)

structure Handle.Twin (h h' : Handle) : Prop where
  table : π.table h.table h'.table
  lock : π.lock h.lock h'.lock

/-- Attempts on locks that tables handed out. -/
structure Attempt.Twin (a a' : Attempt) : Prop where
  lock : π.lock a.lock a'.lock
  policy : a'.policy = a.policy
  table : ∃ t t', a.table = some t ∧ a'.table = some t' ∧ π.table t t'

/-- Threads are at the same point of the same call of a user of factories, and not in the middle of
a deadlock check. -/
inductive Phase.Twin : Phase → Phase → Prop where
  | idle : Twin .idle .idle
  | lookUp {t t' : TableId} {identifier : String} : π.table t t' →
      Twin (.lookUp t identifier) (.lookUp t' identifier)
  | insert {t t' : TableId} {identifier : String} : π.table t t' →
      Twin (.insert t identifier) (.insert t' identifier)
  | tryTake {a a' : Attempt} : a.Twin π a' → Twin (.tryTake a) (.tryTake a')
  | readQueue {a a' : Attempt} : a.Twin π a' → Twin (.readQueue a) (.readQueue a')
  | checking {a a' : Attempt} {left : Option Nat} : a.Twin π a' →
      Twin (.checking (.attempt a left) .isLocked) (.checking (.attempt a' left) .isLocked)
  | spend {a a' : Attempt} {left : Option Nat} : a.Twin π a' →
      Twin (.spend a left) (.spend a' left)
  | waiting {a a' : Attempt} {left d : Option Nat} {s : WaitStage} : a.Twin π a' →
      Twin (.waiting (.attempt a left) d s) (.waiting (.attempt a' left) d s)
  | readClosed {a a' : Attempt} : a.Twin π a' → Twin (.readClosed a) (.readClosed a')
  | backOut {a a' : Attempt} : a.Twin π a' → Twin (.backOut a) (.backOut a')
  | notifyBackOut {a a' : Attempt} : a.Twin π a' → Twin (.notifyBackOut a) (.notifyBackOut a')
  | discard {a a' : Attempt} : a.Twin π a' → Twin (.discard a) (.discard a')
  | releasing {h h' : Handle} {who : Releaser} {s : ReleaseStage} : h.Twin π h' →
      Twin (.releasing h who s) (.releasing h' who s)
  | makeTable {policy : Policy} {unlimited : Bool} :
      Twin (.acting (.makeTable policy unlimited)) (.acting (.makeTable policy unlimited))
  | clearInterrupt {target : ThreadId} :
      Twin (.acting (.clearInterrupt target)) (.acting (.clearInterrupt target))
  | retain {t t' : TableId} : π.table t t' → Twin (.acting (.retain t)) (.acting (.retain t'))
  | forgo {t t' : TableId} : π.table t t' → Twin (.acting (.forgo t)) (.acting (.forgo t'))

inductive Outcome.Twin : Outcome → Outcome → Prop where
  | obtained {h h' : Handle} : h.Twin π h' → Twin (.obtained h) (.obtained h')
  | refused (e : LockError) : Twin (.refused e) (.refused e)
  | released : Twin .released .released
  | cleared (was : Bool) : Twin (.cleared was) (.cleared was)
  | tableMade {t t' : TableId} : π.table t t' → Twin (.tableMade t) (.tableMade t')
  | done : Twin .done .done

/-- Two actions led to the same. -/
structure Step.Twin (st st' : Step) : Prop where
  memory : st.memory.Twins π st'.memory
  phase : st.phase.Twin π st'.phase
  answers : List.Forall₂ (Outcome.Twin π) st.answers st'.answers

end

section
variable {π ρ : Pairing} {m m' : Memory} {me : ThreadId} {now : Nat}

theorem Handle.Twin.grow {h h' : Handle} (ht : h.Twin π h') (hg : π.Grows m m' ρ) : h.Twin ρ h' :=
  ⟨hg.table ht.table, hg.lock ht.lock⟩

theorem Attempt.Twin.grow {a a' : Attempt} (ha : a.Twin π a') (hg : π.Grows m m' ρ) :
    a.Twin ρ a' := by
  obtain ⟨hl, hp, t, t', ht, ht', hj⟩ := ha
  exact ⟨hg.lock hl, hp, t, t', ht, ht', hg.table hj⟩

theorem Phase.Twin.grow {p q : Phase} (hp : p.Twin π q) (hg : π.Grows m m' ρ) : p.Twin ρ q := by
  cases hp with
  | idle => exact .idle
  | lookUp ht => exact .lookUp (hg.table ht)
  | insert ht => exact .insert (hg.table ht)
  | tryTake ha => exact .tryTake (ha.grow hg)
  | readQueue ha => exact .readQueue (ha.grow hg)
  | checking ha => exact .checking (ha.grow hg)
  | spend ha => exact .spend (ha.grow hg)
  | waiting ha => exact .waiting (ha.grow hg)
  | readClosed ha => exact .readClosed (ha.grow hg)
  | backOut ha => exact .backOut (ha.grow hg)
  | notifyBackOut ha => exact .notifyBackOut (ha.grow hg)
  | discard ha => exact .discard (ha.grow hg)
  | releasing hh => exact .releasing (hh.grow hg)
  | makeTable => exact .makeTable
  | clearInterrupt => exact .clearInterrupt
  | retain ht => exact .retain (hg.table ht)
  | forgo ht => exact .forgo (hg.table ht)

theorem Phase.Twin.locks {p q : Phase} (hp : p.Twin π q) :
    List.Forall₂ π.lock p.locks q.locks := by
  cases hp with
  | tryTake ha | readQueue ha | spend ha | waiting ha | readClosed ha | backOut ha
  | notifyBackOut ha | discard ha => exact .cons ha.lock .nil
  | releasing hh => exact .cons hh.lock .nil
  | _ => exact .nil

theorem Attempt.Twin.tables {a a' : Attempt} (ha : a.Twin π a') :
    List.Forall₂ π.table a.table.toList a'.table.toList := by
  obtain ⟨-, -, t, t', ht, ht', hj⟩ := ha
  rw [ht, ht']
  exact .cons hj .nil

theorem Phase.Twin.tables {p q : Phase} (hp : p.Twin π q) :
    List.Forall₂ π.table p.tables q.tables := by
  cases hp with
  | insert ht => exact .cons ht .nil
  | discard ha => exact ha.tables
  | releasing hh => exact .cons hh.table .nil
  | _ => exact .nil

theorem Phase.Twin.refs {p q : Phase} (hp : p.Twin π q) :
    List.Forall₂ π.table p.refs q.refs := by
  cases hp with
  | lookUp ht | insert ht | forgo ht => exact .cons ht .nil
  | tryTake ha | readQueue ha | spend ha | waiting ha | readClosed ha | backOut ha
  | notifyBackOut ha | discard ha | checking ha => exact ha.tables
  | releasing hh => exact .cons hh.table .nil
  | _ => exact .nil

theorem Phase.Twin.idle_iff {p q : Phase} (hp : p.Twin π q) : p = .idle ↔ q = .idle := by
  cases hp <;> exact ⟨fun h => by cases h <;> rfl, fun h => by cases h <;> rfl⟩

theorem Phase.Twin.isLocked {p q : Phase} (hp : p.Twin π q) {e : Errand} {c : Check}
    (he : p = .checking e c) : c = .isLocked := by
  subst he
  cases hp
  rfl

/-! ## Actions -/

namespace Step

theorem twin_moveTo {p q : Phase} (hm : m.Twins π m') (hp : p.Twin π q) :
    (moveTo m p).Twin π (moveTo m' q) := ⟨hm, hp, .nil⟩

theorem twin_finish {o o' : Outcome} (hm : m.Twins π m') (ho : o.Twin π o') :
    (finish m o).Twin π (finish m' o') := ⟨hm, .idle, .cons ho .nil⟩

theorem Twin.emit {st st' : Step} (h : st.Twin π st') (e e' : Event) :
    (st.emit e).Twin π (st'.emit e') := ⟨h.memory, h.phase, h.answers⟩

end Step

open Step (twin_moveTo twin_finish)

variable {st : Step} {t t' : TableId}

theorem Memory.Twins.ofEntry (hm : m.Twins π m') (ht : π.table t t') {l l' : LockId}
    (hl : π.lock l l') : (Attempt.ofEntry m t l).Twin π (.ofEntry m' t' l') :=
  ⟨hl, hm.policy ht, t, t', rfl, rfl, ht⟩

theorem lookUp_twin (hm : m.Twins π m') (ht : π.table t t') (identifier : String) :
    (lookUp m t identifier).Twin π (lookUp m' t' identifier) := by
  have hfind := hm.find? ht identifier
  unfold lookUp
  generalize (m.table t).find? identifier = o, (m'.table t').find? identifier = o' at hfind
  cases hfind with
  | none => exact twin_moveTo hm (.insert ht)
  | some hl => exact twin_moveTo hm (.tryTake (hm.ofEntry ht hl))

theorem insert_twin (hm : m.Twins π m') (ht : π.table t t') (identifier : String) :
    ∃ ρ, π.Grows m m' ρ ∧ (insert m t identifier).Twin ρ (insert m' t' identifier) := by
  have hfind := hm.find? ht identifier
  unfold insert
  generalize (m.table t).find? identifier = o, (m'.table t').find? identifier = o' at hfind
  cases hfind with
  | none =>
    refine ⟨_, Pairing.grows_addLock, .emit (twin_moveTo (hm.addEntry ht identifier) (.tryTake ?_))
      _ _⟩
    exact ⟨.inr ⟨rfl, rfl⟩, hm.policy ht, t, t', rfl, rfl, ht⟩
  | some hl => exact ⟨π, .refl, twin_moveTo hm (.tryTake (hm.ofEntry ht hl))⟩

namespace Attempt

variable {a a' : Attempt}

theorem Twin.identifier (ha : a.Twin π a') (hm : m.Twins π m') :
    a'.identifier m' = a.identifier m := congrArg Lock.identifier (hm.lock ha.lock)

theorem twin_fail (hm : m.Twins π m') (e : LockError) :
    (a.fail m e).Twin π (a'.fail m' e) := twin_finish (hm.forgoAll ..) (.refused e)

theorem Twin.tryTake (ha : a.Twin π a') (hm : m.Twins π m') (h : a.tryTake me m = some st) :
    ∃ st', a'.tryTake me m' = some st' ∧ st.Twin π st' := by
  obtain ⟨hfree, rfl⟩ := Memory.critical_eq_some_iff.mp h
  refine ⟨_, hm.critical ha.lock hfree _, ?_⟩
  split
  · exact twin_moveTo (hm.modifyLock ha.lock _) (.readClosed ha)
  · exact twin_moveTo hm (.readQueue ha)

theorem Twin.readQueue (ha : a.Twin π a') (hm : m.Twins π m') (h : a.readQueue m = some st) :
    ∃ st', a'.readQueue m' = some st' ∧ st.Twin π st' := by
  obtain ⟨hfree, rfl⟩ := Memory.critical_eq_some_iff.mp h
  refine ⟨_, hm.critical ha.lock hfree _, ?_⟩
  dsimp only
  rw [ha.policy]
  split
  · exact (twin_fail hm _).emit _ _
  · exact twin_moveTo hm (.checking ha)

theorem Twin.spend (ha : a.Twin π a') (hm : m.Twins π m') (left : Option Nat) :
    (a.spend now m left).Twin π (a'.spend now m' left) := by
  unfold Attempt.spend
  rw [ha.policy, ha.identifier hm]
  split
  · exact (twin_fail hm _).emit _ _
  · exact (twin_moveTo hm (.waiting ha)).emit _ _

theorem Twin.readClosed (ha : a.Twin π a') (hm : m.Twins π m') :
    (a.readClosed m).Twin π (a'.readClosed m') := by
  obtain ⟨t, t', ht, ht', hj⟩ := ha.table
  unfold Attempt.readClosed
  rw [hm.lock ha.lock, ht, ht']
  split
  · exact twin_moveTo hm (.backOut ha)
  · exact twin_finish hm (.obtained ⟨hj, ha.lock⟩)

theorem Twin.backOut (ha : a.Twin π a') (hm : m.Twins π m') (h : a.backOut me m = some st) :
    ∃ st', a'.backOut me m' = some st' ∧ st.Twin π st' := by
  obtain ⟨hfree, rfl⟩ := Memory.critical_eq_some_iff.mp h
  refine ⟨_, hm.critical ha.lock hfree _, ?_⟩
  split
  · refine twin_moveTo (hm.modifyLock ha.lock _) ?_
    split
    · exact .discard ha
    · exact .notifyBackOut ha
  · exact (twin_moveTo hm (.discard ha)).emit _ _

theorem Twin.discard (ha : a.Twin π a') (hm : m.Twins π m') :
    (a.discard m).Twin π (a'.discard m') := by
  obtain ⟨t, t', ht, ht', hj⟩ := ha.table
  unfold Attempt.discard
  rw [ht, ht', ha.identifier hm]
  exact twin_moveTo (hm.removeEntry hj ha.lock) (.lookUp hj)

/-- Nobody is interrupted, so a wait ends with the lock or with the time. -/
theorem Twin.wait (ha : a.Twin π a') (hm : m.Twins π m') {left d : Option Nat} {s : WaitStage}
    (h : (Errand.attempt a left).wait me now m d s = some st) :
    ∃ st', (Errand.attempt a' left).wait me now m' d s = some st' ∧ st.Twin π st' := by
  cases s with
  | enter =>
    simp only [Errand.wait, Errand.lock] at h ⊢
    obtain ⟨hfree, rfl⟩ := Memory.critical_eq_some_iff.mp h
    refine ⟨_, hm.critical ha.lock hfree _, ?_⟩
    split
    · exact twin_moveTo (hm.modifyLock ha.lock _) (.readClosed ha)
    · exact twin_moveTo ((hm.modifyLock ha.lock _).modifyLock ha.lock _) (.waiting ha)
  | checkFlag =>
    have hquiet {m : Memory} (hq : m.interrupted = []) : m.isInterrupted me = false := by
      rw [Memory.isInterrupted, hq]
      rfl
    simp only [Errand.wait, hquiet hm.quiet.1, hquiet hm.quiet.2] at h ⊢
    cases h
    exact ⟨_, rfl, twin_moveTo hm (.waiting ha)⟩
  | doze =>
    simp only [Errand.wait] at h ⊢
    split at h <;> cases h
    · next hd => exact ⟨_, if_pos hd, twin_moveTo (hm.modifyLock ha.lock _) (.checking ha)⟩
    · next hd =>
      exact ⟨_, if_neg hd,
        twin_moveTo ((hm.modifyLock ha.lock _).modifyLock ha.lock _) (.waiting ha)⟩
  | asleep =>
    simp only [Errand.wait] at h
    split at h
    · cases h
    · next hs =>
      obtain ⟨hfree, rfl⟩ := Memory.critical_eq_some_iff.mp h
      have hs' : me ∉ (m'.lock a'.lock).sleepers := by
        rw [hm.lock ha.lock]
        exact hs
      refine ⟨_, (if_neg hs').trans (hm.critical ha.lock hfree _), ?_⟩
      dsimp only [Errand.lock]
      split
      · exact twin_moveTo (hm.modifyLock ha.lock _) (.readClosed ha)
      · exact twin_moveTo (hm.modifyLock ha.lock _) (.waiting ha)

end Attempt

namespace Handle

variable {h h' : Handle} {who : Releaser}

theorem twin_conclude (hm : m.Twins π m') (r : Except LockError Unit) :
    (who.conclude h m r).Twin π (who.conclude h' m' r) := by
  have hforgo := hm.forgo h.table h'.table
  cases r with
  | error e =>
    cases who with
    | handle => exact twin_finish hforgo (.refused e)
    | guard => exact (twin_finish hforgo .released).emit _ _
  | ok => cases who <;> exact twin_finish hforgo .released

theorem Twin.release (hh : h.Twin π h') (hm : m.Twins π m') {s : ReleaseStage}
    (hst : who.release me m h s = some st) :
    ∃ st', who.release me m' h' s = some st' ∧ st.Twin π st' := by
  cases s with
  | unlock =>
    simp only [Releaser.release] at hst ⊢
    obtain ⟨hfree, rfl⟩ := Memory.critical_eq_some_iff.mp hst
    refine ⟨_, hm.critical hh.lock hfree _, ?_⟩
    split
    · exact twin_conclude hm _
    · exact twin_moveTo (hm.modifyLock hh.lock _) (.releasing hh)
  | notify =>
    cases hst
    exact ⟨_, rfl, twin_moveTo (hm.modifyLock hh.lock _) (.releasing hh)⟩
  | probe =>
    simp only [Releaser.release] at hst ⊢
    obtain ⟨hfree, rfl⟩ := Memory.critical_eq_some_iff.mp hst
    refine ⟨_, hm.critical hh.lock hfree _, ?_⟩
    split
    · exact twin_conclude hm _
    · exact twin_moveTo (hm.modifyLock hh.lock _) (.releasing hh)
  | count =>
    simp only [Releaser.release] at hst ⊢
    obtain ⟨hfree, rfl⟩ := Memory.critical_eq_some_iff.mp hst
    exact ⟨_, hm.critical hh.lock hfree _, twin_moveTo hm (.releasing hh)⟩
  | close =>
    cases hst
    exact ⟨_, rfl, twin_moveTo (hm.modifyLock hh.lock _) (.releasing hh)⟩
  | remove =>
    simp only [Releaser.release, Option.some.injEq] at hst
    subst hst
    refine ⟨_, rfl, ?_⟩
    have hphase : (Phase.releasing h who .unprobe).Twin π (.releasing h' who .unprobe) :=
      .releasing hh
    have hmove := twin_moveTo (hm.removeEntry hh.table hh.lock) hphase
    rw [hm.lock hh.lock, hm.holds hh.table hh.lock]
    split
    · exact hmove.emit _ _
    · exact hmove
  | unprobe =>
    simp only [Releaser.release] at hst ⊢
    obtain ⟨hfree, rfl⟩ := Memory.critical_eq_some_iff.mp hst
    refine ⟨_, hm.critical hh.lock hfree _, ?_⟩
    split
    · exact (twin_conclude hm _).emit _ _
    · split
      · exact twin_conclude (hm.modifyLock hh.lock _) _
      · exact twin_moveTo (hm.modifyLock hh.lock _) (.releasing hh)
  | notifyProbe =>
    cases hst
    exact ⟨_, rfl, twin_conclude (hm.modifyLock hh.lock _) _⟩

end Handle

theorem Memory.Twins.clearInterrupt (hm : m.Twins π m') (target : ThreadId) :
    (m.clearInterrupt target).Twins π (m'.clearInterrupt target) := by
  refine hm.references (.clearInterrupt .refl target) (.clearInterrupt .refl target) ?_ ?_
  · rw [Memory.clearInterrupt, hm.quiet.1, List.filter_nil]
  · rw [Memory.clearInterrupt, hm.quiet.2, List.filter_nil]

/-- **Twins do the same**, as long as they do not look for deadlocks. -/
theorem Phase.Twin.next {p q : Phase} (hp : p.Twin π q) (hm : m.Twins π m')
    (hc : ∀ e c, p ≠ .checking e c) (h : p.next me now m = some st) :
    ∃ ρ st', π.Grows m m' ρ ∧ q.next me now m' = some st' ∧ st.Twin ρ st' := by
  have hsame (hs : ∃ st', q.next me now m' = some st' ∧ st.Twin π st') :
      ∃ ρ st', π.Grows m m' ρ ∧ q.next me now m' = some st' ∧ st.Twin ρ st' := by
    obtain ⟨st', hn, ht⟩ := hs
    exact ⟨π, st', .refl, hn, ht⟩
  cases hp with
  | idle => cases h
  | lookUp ht => cases h; exact hsame ⟨_, rfl, lookUp_twin hm ht _⟩
  | insert ht =>
    cases h
    obtain ⟨ρ, hg, hs⟩ := insert_twin hm ht _
    exact ⟨ρ, _, hg, rfl, hs⟩
  | tryTake ha => exact hsame (ha.tryTake hm h)
  | readQueue ha => exact hsame (ha.readQueue hm h)
  | checking ha => exact absurd rfl (hc _ _)
  | spend ha => cases h; exact hsame ⟨_, rfl, ha.spend hm _⟩
  | waiting ha => exact hsame (ha.wait hm h)
  | readClosed ha => cases h; exact hsame ⟨_, rfl, ha.readClosed hm⟩
  | backOut ha => exact hsame (ha.backOut hm h)
  | notifyBackOut ha =>
    cases h
    exact hsame ⟨_, rfl, twin_moveTo (hm.modifyLock ha.lock _) (.discard ha)⟩
  | discard ha => cases h; exact hsame ⟨_, rfl, ha.discard hm⟩
  | releasing hh => exact hsame (hh.release hm h)
  | @makeTable policy unlimited =>
    cases h
    have hfinish := twin_finish (hm.addTable policy) (.tableMade (.inr ⟨rfl, rfl⟩))
    refine ⟨_, _, Pairing.grows_addTable, rfl, ?_⟩
    split
    · exact hfinish.emit _ _
    · exact hfinish
  | @clearInterrupt target =>
    cases h
    have hflag : m'.isInterrupted target = m.isInterrupted target := by
      rw [Memory.isInterrupted, Memory.isInterrupted, hm.quiet.1, hm.quiet.2]
    refine hsame ⟨_, rfl, ?_⟩
    rw [hflag]
    exact twin_finish (hm.clearInterrupt target) (.cleared _)
  | retain ht => cases h; exact hsame ⟨_, rfl, twin_finish (hm.retain ..) .done⟩
  | forgo ht => cases h; exact hsame ⟨_, rfl, twin_finish (hm.forgo ..) .done⟩

/-! ## Calls -/

/-- The same call of two users of factories, and no interrupt. -/
inductive Call.Twin (π : Pairing) : Call → Call → Prop where
  | obtain {t t' : TableId} {identifier : String} : π.table t t' →
      Twin π (.obtain t identifier) (.obtain t' identifier)
  | release {h h' : Handle} : h.Twin π h' → Twin π (.release h) (.release h')
  | dropGuard {h h' : Handle} : h.Twin π h' → Twin π (.dropGuard h) (.dropGuard h')
  | makeTable {policy : Policy} {unlimited : Bool} :
      Twin π (.act (.makeTable policy unlimited)) (.act (.makeTable policy unlimited))
  | clearInterrupt {target : ThreadId} :
      Twin π (.act (.clearInterrupt target)) (.act (.clearInterrupt target))
  | retain {t t' : TableId} : π.table t t' → Twin π (.act (.retain t)) (.act (.retain t'))
  | forgo {t t' : TableId} : π.table t t' → Twin π (.act (.forgo t)) (.act (.forgo t'))

theorem Call.Twin.begin {c c' : Call} (hc : c.Twin π c') (now : Nat) (hm : m.Twins π m') :
    (c.begin now m).1.Twins π (c'.begin now m').1 ∧
      (c.begin now m).2.Twin π (c'.begin now m').2 := by
  cases hc with
  | obtain ht => exact ⟨hm.retain .., .lookUp ht⟩
  | release hh => exact ⟨hm.retain .., .releasing hh⟩
  | dropGuard hh => exact ⟨hm, .releasing hh⟩
  | makeTable => exact ⟨hm, .makeTable⟩
  | clearInterrupt => exact ⟨hm, .clearInterrupt⟩
  | retain ht => exact ⟨hm, .retain ht⟩
  | forgo ht => exact ⟨hm, .forgo ht⟩

end

end KeyedLocks
