import Mathlib.Data.List.Basic
import KeyedLocks.Proofs.Memory
import KeyedLocks.Proofs.Mutex

/-!
# Holdings: who holds what

`Holdings` is the part of the memory that the life of a lock depends on: how many holds each thread
has on each lock, which locks are closed, and which ones the tables register. Here is what each
change of the memory does to it: `m.Shows H` says that the holdings of `m` are `H`, and `Shows` has
a lemma for each change that leaves them as they are, `Wf` one for each that does not.
-/

namespace KeyedLocks

/-- The holds on all locks, the closed ones, and what the tables register. -/
@[ext]
structure Holdings where
  held : LockId → ThreadId → Nat
  closed : LockId → Bool
  identifier : LockId → String
  entries : TableId → List (String × LockId)
  /-- No lock has this number or one above it. -/
  fresh : LockId

namespace Holdings

/-- One hold more of `t` on `l`. -/
def add (H : Holdings) (l : LockId) (t : ThreadId) : Holdings :=
  { H with held := fun j u => if j = l ∧ u = t then H.held j u + 1 else H.held j u }

/-- One hold less of `t` on `l`. -/
def sub (H : Holdings) (l : LockId) (t : ThreadId) : Holdings :=
  { H with held := fun j u => if j = l ∧ u = t then H.held j u - 1 else H.held j u }

theorem held_add_self (H : Holdings) (l : LockId) (t : ThreadId) :
    (H.add l t).held l t = H.held l t + 1 := if_pos ⟨rfl, rfl⟩

theorem held_add_of_ne (H : Holdings) {l j : LockId} {t u : ThreadId} (h : ¬ (j = l ∧ u = t)) :
    (H.add l t).held j u = H.held j u := if_neg h

theorem held_sub_self (H : Holdings) (l : LockId) (t : ThreadId) :
    (H.sub l t).held l t = H.held l t - 1 := if_pos ⟨rfl, rfl⟩

theorem held_sub_of_ne (H : Holdings) {l j : LockId} {t u : ThreadId} (h : ¬ (j = l ∧ u = t)) :
    (H.sub l t).held j u = H.held j u := if_neg h

theorem held_sub_le (H : Holdings) (l j : LockId) (t u : ThreadId) :
    (H.sub l t).held j u ≤ H.held j u := by
  show (if j = l ∧ u = t then _ else _) ≤ _
  split
  · exact Nat.sub_le ..
  · exact Nat.le_refl _

def close (H : Holdings) (l : LockId) : Holdings :=
  { H with closed := fun j => if j = l then true else H.closed j }

/-- A new lock that no table holds. -/
def addLock (H : Holdings) (identifier : String) : Holdings :=
  { H with
    held := fun j u => if j = H.fresh then 0 else H.held j u
    closed := fun j => if j = H.fresh then false else H.closed j
    identifier := fun j => if j = H.fresh then identifier else H.identifier j
    fresh := H.fresh + 1 }

/-- A new lock that a table registers. -/
def create (H : Holdings) (t : TableId) (identifier : String) : Holdings :=
  { H.addLock identifier with
    entries := fun j =>
      if j = t then H.entries t ++ [(identifier, H.fresh)] else H.entries j }

/-- Take `l` out of a table, if it is what its identifier is registered for. -/
def remove (H : Holdings) (t : TableId) (l : LockId) : Holdings :=
  if (H.entries t).lookup (H.identifier l) = some l then
    { H with
      entries := fun j =>
        if j = t then (H.entries t).filter (·.1 ≠ H.identifier l) else H.entries j }
  else H

/-- No other thread has a hold on `l`. -/
def FreeFor (H : Holdings) (l : LockId) (t : ThreadId) : Prop := ∀ u, u ≠ t → H.held l u = 0

/-- `H'` differs from `H` at most in that some numbers of locks were passed over. -/
def Grows (H H' : Holdings) : Prop := H.fresh ≤ H'.fresh ∧ H' = { H with fresh := H'.fresh }

theorem Grows.refl (H : Holdings) : H.Grows H := ⟨Nat.le_refl _, rfl⟩

theorem Grows.trans {H₁ H₂ H₃ : Holdings} (h : H₁.Grows H₂) (h' : H₂.Grows H₃) : H₁.Grows H₃ := by
  obtain ⟨hn, he⟩ := h
  obtain ⟨hn', he'⟩ := h'
  refine ⟨Nat.le_trans hn hn', ?_⟩
  rw [he', he]

end Holdings

/-- The holdings in a memory. -/
def Memory.holdings (m : Memory) : Holdings where
  held l t := (m.lock l).mutex.holdsOf t
  closed l := (m.lock l).closed
  identifier l := (m.lock l).identifier
  entries t := (m.table t).entries
  fresh := m.locks.fresh

/-! ## Changes of the memory -/

namespace Memory

variable {m : Memory} {l : LockId} {t : ThreadId}

/-- A change of one lock, measured against holdings that differ from those before at that lock
only. -/
theorem grows_modifyLock {H : Holdings} {f : Lock → Lock} (hn : H.fresh = m.locks.fresh)
    (he : H.entries = m.holdings.entries)
    (hj : ∀ j, j ≠ l → H.held j = m.holdings.held j ∧ H.closed j = m.holdings.closed j ∧
      H.identifier j = m.holdings.identifier j)
    (hx : ∀ u, (f (m.lock l)).mutex.holdsOf u = H.held l u)
    (hc : (f (m.lock l)).closed = H.closed l)
    (hi : (f (m.lock l)).identifier = H.identifier l) :
    H.Grows (m.modifyLock l f).holdings := by
  refine ⟨hn ▸ fresh_modifyLock_ge .., Holdings.ext ?_ ?_ ?_ he.symm rfl⟩
  all_goals
    funext j
    simp only [holdings, lock_modifyLock]
    by_cases h : j = l
  · subst h; funext u; simp only [if_true, hx]
  · simp only [h, if_false]; exact (hj j h).1.symm
  · subst h; simp only [if_true, hc]
  · simp only [h, if_false]; exact (hj j h).2.1.symm
  · subst h; simp only [if_true, hi]
  · simp only [h, if_false]; exact (hj j h).2.2.symm

theorem grows_of_quiet {f : Lock → Lock}
    (hx : ∀ u, (f (m.lock l)).mutex.holdsOf u = (m.lock l).mutex.holdsOf u)
    (hc : (f (m.lock l)).closed = (m.lock l).closed)
    (hi : (f (m.lock l)).identifier = (m.lock l).identifier) :
    m.holdings.Grows (m.modifyLock l f).holdings :=
  grows_modifyLock rfl rfl (fun _ _ => ⟨rfl, rfl, rfl⟩) hx hc hi

theorem grows_take {x y : Mutex} (hw : (m.lock l).mutex.Wf)
    (hx : (m.lock l).mutex.take? t = some x) (hy : ∀ u, y.holdsOf u = x.holdsOf u) :
    (m.holdings.add l t).Grows (m.setMutex l y).holdings := by
  have hother (j : LockId) (hj : j ≠ l) : (m.holdings.add l t).held j = m.holdings.held j := by
    funext u
    exact Holdings.held_add_of_ne _ fun h => hj h.1
  refine grows_modifyLock rfl rfl (fun j hj => ⟨hother j hj, rfl, rfl⟩) ?_ rfl rfl
  intro u
  show y.holdsOf u = _
  rw [hy, Mutex.holdsOf_of_take? hw hx]
  split
  · next hu =>
    rw [hu, Holdings.held_add_self]
    rfl
  · next hu =>
    rw [Holdings.held_add_of_ne _ fun h => hu h.2]
    rfl

theorem grows_release {x : Mutex} (hx : (m.lock l).mutex.release? t = some x) :
    (m.holdings.sub l t).Grows (m.setMutex l x).holdings := by
  have hother (j : LockId) (hj : j ≠ l) : (m.holdings.sub l t).held j = m.holdings.held j := by
    funext u
    exact Holdings.held_sub_of_ne _ fun h => hj h.1
  refine grows_modifyLock rfl rfl (fun j hj => ⟨hother j hj, rfl, rfl⟩) ?_ rfl rfl
  intro u
  show x.holdsOf u = _
  rw [Mutex.holdsOf_of_release? hx]
  split
  · next hu =>
    rw [hu, Holdings.held_sub_self]
    rfl
  · next hu =>
    rw [Holdings.held_sub_of_ne _ fun h => hu h.2]
    rfl

theorem grows_close : (m.holdings.close l).Grows (m.close l).holdings := by
  have hother (j : LockId) (hj : j ≠ l) : (m.holdings.close l).closed j = m.holdings.closed j :=
    if_neg hj
  have hself : true = (m.holdings.close l).closed l := (if_pos rfl).symm
  exact grows_modifyLock rfl rfl (fun j hj => ⟨rfl, hother j hj, rfl⟩) (fun _ => rfl) hself rfl

@[simp] theorem holdings_retain : (m.retain t).holdings = m.holdings :=
  Holdings.ext rfl rfl rfl (funext fun _ => entries_retain ..) rfl

@[simp] theorem holdings_forgo : (m.forgo t).holdings = m.holdings :=
  Holdings.ext rfl rfl rfl (funext fun _ => entries_forgo ..) rfl

@[simp] theorem holdings_retainAll (ts : List TableId) :
    (m.retainAll ts).holdings = m.holdings := by
  induction ts generalizing m with
  | nil => rfl
  | cons t ts ih => exact (ih (m := m.retain t)).trans holdings_retain

@[simp] theorem holdings_forgoAll (ts : List TableId) :
    (m.forgoAll ts).holdings = m.holdings := by
  induction ts generalizing m with
  | nil => rfl
  | cons t ts ih => exact (ih (m := m.forgo t)).trans holdings_forgo

theorem holdings_addTable (p : Policy) : (m.addTable p).holdings = m.holdings := by
  have he (j : TableId) : ((m.addTable p).table j).entries = (m.table j).entries := by
    rw [table_addTable]
    split
    · next h =>
      rw [h, table_fresh]
      rfl
    · rfl
  exact Holdings.ext rfl rfl rfl (funext he) rfl

theorem holdings_addLock (identifier : String) :
    (m.addLock identifier).holdings = m.holdings.addLock identifier := by
  refine Holdings.ext ?_ ?_ ?_ rfl rfl
  all_goals
    funext j
    simp only [holdings, Holdings.addLock, lock_addLock]
    by_cases h : j = m.locks.fresh <;> simp only [h, if_true, if_false]
  rfl

theorem holdings_addEntry (identifier : String) :
    (m.addEntry t identifier).holdings = m.holdings.create t identifier := by
  rw [Holdings.create, ← holdings_addLock]
  refine Holdings.ext rfl rfl rfl (funext fun j => ?_) rfl
  simp only [holdings, addEntry, table_modifyTable, Table.insert]
  split <;> rfl

theorem holdings_removeEntry : (m.removeEntry t l).holdings = m.holdings.remove t l := by
  have hiff : (m.table t).holds (m.lock l).identifier l ↔
      (m.holdings.entries t).lookup (m.holdings.identifier l) = some l := by
    unfold Table.holds Table.find?
    rw [beq_iff_eq]
    rfl
  unfold Holdings.remove
  split
  · next h =>
    refine Holdings.ext rfl rfl rfl ?_ rfl
    funext j
    simp only [holdings, removeEntry, table_modifyTable, Table.remove, hiff.mpr h, if_true]
    split <;> rfl
  · next h =>
    refine Holdings.ext rfl rfl rfl ?_ rfl
    funext j
    have hr : ¬ (m.table t).holds (m.lock l).identifier l := fun hr => h (hiff.mp hr)
    simp only [holdings, removeEntry, table_modifyTable, Table.remove, hr]
    split
    · next hj =>
      rw [hj]
      rfl
    · rfl

/-! ## Well-formed memories with given holdings -/

/-- Every mutex has an owner just when there are holds on it. -/
def Wf (m : Memory) : Prop := ∀ l, (m.lock l).mutex.Wf

/-- `m` is well-formed and its holdings are `H`, up to numbers that were passed over. -/
def Shows (m : Memory) (H : Holdings) : Prop := m.Wf ∧ H.Grows m.holdings

theorem Wf.shows (h : m.Wf) : m.Shows m.holdings := ⟨h, .refl _⟩

theorem Wf.modifyLock (h : m.Wf) {f : Lock → Lock} (hf : (f (m.lock l)).mutex.Wf) :
    (m.modifyLock l f).Wf := by
  intro j
  rw [lock_modifyLock]
  split
  · exact hf
  · exact h j

theorem freeFor_of_take? {x : Mutex} (hx : (m.lock l).mutex.take? t = some x) :
    m.holdings.FreeFor l t := by
  intro u hu
  rcases Nat.eq_zero_or_pos (m.holdings.held l u) with h | h
  · exact h
  · have ho := Mutex.owner_of_holdsOf h
    rcases Mutex.free_of_take? hx with hf | hf
    · rw [ho] at hf; cases hf
    · rw [ho] at hf; cases hf; exact absurd rfl hu

theorem Wf.held_of_take?_none (h : m.Wf) (hx : (m.lock l).mutex.take? t = none) :
    ∃ o, o ≠ t ∧ 0 < m.holdings.held l o := by
  obtain ⟨o, ho, hw⟩ := Mutex.take?_eq_none_iff.mp hx
  exact ⟨o, ho, Mutex.holdsOf_of_owner (h l) hw⟩

theorem Wf.held_of_release? (h : m.Wf) {x : Mutex}
    (hx : (m.lock l).mutex.release? t = some x) : 0 < m.holdings.held l t :=
  Mutex.holdsOf_of_owner (h l) (Mutex.release?_eq_some_iff.mp hx).1

theorem held_of_release?_none (hx : (m.lock l).mutex.release? t = none) :
    m.holdings.held l t = 0 := by
  have ho := Mutex.release?_eq_none_iff.mp hx
  simp only [holdings, Mutex.holdsOf, ho, if_false]

theorem Wf.take (h : m.Wf) {x y : Mutex} (hx : (m.lock l).mutex.take? t = some x)
    (hy : y.Wf ∧ ∀ u, y.holdsOf u = x.holdsOf u) :
    (m.setMutex l y).Shows (m.holdings.add l t) :=
  ⟨h.modifyLock hy.1, grows_take (h l) hx hy.2⟩

theorem Wf.release (h : m.Wf) {x : Mutex} (hx : (m.lock l).mutex.release? t = some x) :
    (m.setMutex l x).Shows (m.holdings.sub l t) :=
  ⟨h.modifyLock (Mutex.Wf.release? hx), grows_release hx⟩

theorem Wf.close (h : m.Wf) : (m.close l).Shows (m.holdings.close l) :=
  ⟨h.modifyLock (h l), grows_close⟩

theorem Wf.addLock (h : m.Wf) (identifier : String) :
    (m.addLock identifier).Shows (m.holdings.addLock identifier) := by
  constructor
  · intro j
    rw [lock_addLock]
    split
    · exact Mutex.wf_default
    · exact h j
  · rw [holdings_addLock]
    exact .refl _

theorem Wf.addEntry (h : m.Wf) (identifier : String) :
    (m.addEntry t identifier).Shows (m.holdings.create t identifier) :=
  ⟨(h.addLock identifier).1, holdings_addEntry identifier ▸ .refl _⟩

theorem Wf.removeEntry (h : m.Wf) : (m.removeEntry t l).Shows (m.holdings.remove t l) :=
  ⟨h, holdings_removeEntry ▸ .refl _⟩

namespace Shows

variable {H : Holdings}

theorem modifyLock (h : m.Shows H) {f : Lock → Lock} (hf : (f (m.lock l)).mutex.Wf)
    (hx : ∀ u, (f (m.lock l)).mutex.holdsOf u = (m.lock l).mutex.holdsOf u)
    (hc : (f (m.lock l)).closed = (m.lock l).closed)
    (hi : (f (m.lock l)).identifier = (m.lock l).identifier) : (m.modifyLock l f).Shows H :=
  ⟨h.1.modifyLock hf, h.2.trans (grows_of_quiet hx hc hi)⟩

theorem setLatch (h : m.Shows H) (o : Option ThreadId) : (m.setLatch l o).Shows H :=
  h.modifyLock (h.1 l) (fun _ => rfl) rfl rfl

theorem sleep (h : m.Shows H) : (m.sleep l t).Shows H :=
  h.modifyLock (h.1 l) (fun _ => rfl) rfl rfl

theorem rouse (h : m.Shows H) : (m.rouse l t).Shows H :=
  h.modifyLock (h.1 l) (fun _ => rfl) rfl rfl

theorem notifyAll (h : m.Shows H) : (m.notifyAll l).Shows H :=
  h.modifyLock (h.1 l) (fun _ => rfl) rfl rfl

theorem enqueue (h : m.Shows H) : (m.setMutex l ((m.lock l).mutex.enqueue t)).Shows H :=
  h.modifyLock (h.1 l) (fun _ => rfl) rfl rfl

theorem quit (h : m.Shows H) (e : Errand) : (e.quit t m).Shows H :=
  h.modifyLock (h.1 _) (fun _ => rfl) rfl rfl

/-- A change that touches neither locks nor entries. -/
theorem of_eq (h : m.Shows H) {m' : Memory} (hl : m'.lock = m.lock)
    (he : m'.holdings = m.holdings) : m'.Shows H := by
  constructor
  · intro l
    rw [hl]
    exact h.1 l
  · rw [he]
    exact h.2

theorem retain (h : m.Shows H) : (m.retain t).Shows H := h.of_eq rfl holdings_retain

theorem forgo (h : m.Shows H) : (m.forgo t).Shows H := h.of_eq rfl holdings_forgo

theorem retainAll (h : m.Shows H) (ts : List TableId) : (m.retainAll ts).Shows H :=
  h.of_eq (funext (lock_retainAll m ts)) (holdings_retainAll ts)

theorem forgoAll (h : m.Shows H) (ts : List TableId) : (m.forgoAll ts).Shows H :=
  h.of_eq (funext (lock_forgoAll m ts)) (holdings_forgoAll ts)

theorem addTable (h : m.Shows H) (p : Policy) : (m.addTable p).Shows H :=
  h.of_eq rfl (holdings_addTable p)

theorem clearInterrupt (h : m.Shows H) : (m.clearInterrupt t).Shows H := h

end Shows

end Memory

end KeyedLocks
