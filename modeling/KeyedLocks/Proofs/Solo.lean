import KeyedLocks.Proofs.Answers
import KeyedLocks.Proofs.Budget
import KeyedLocks.Proofs.References

/-!
# Calls that run alone

`System.Alone t c s k o s'`: the call `c` that `t` makes in `s` returns `o` and leads to `s'`, and
nobody else moves meanwhile. Time may pass, and `t` may wake up. The call has begun `k` waits.

What such a call does is proved along its moves: an invariant with the number of waits so far that
each move keeps says what the call has done when it returns (`System.Finishes.induct`). That it
returns at all is proved backwards, action by action.
-/

namespace KeyedLocks

/-! ## A memory with one lock replaced -/

namespace Memory

variable {m : Memory} {l : LockId} {k : Lock}

/-- Replace lock `l`. -/
def put (m : Memory) (l : LockId) (k : Lock) : Memory := m.modifyLock l fun _ => k

theorem modifyLock_eq_put (m : Memory) (l : LockId) (f : Lock → Lock) :
    m.modifyLock l f = m.put l (f (m.lock l)) := rfl

theorem lock_put (m : Memory) (l : LockId) (k : Lock) (j : LockId) :
    (m.put l k).lock j = if j = l then k else m.lock j := lock_modifyLock ..

@[simp] theorem lock_put_self (m : Memory) (l : LockId) (k : Lock) : (m.put l k).lock l = k := by
  rw [lock_put, if_pos rfl]

@[simp] theorem modifyLock_put (m : Memory) (l : LockId) (k : Lock) (f : Lock → Lock) :
    (m.put l k).modifyLock l f = m.put l (f k) := by
  rw [modifyLock_eq_put, lock_put_self]
  simp only [put, modifyLock, Arena.modify, Arena.set_set]

theorem put_lock_self (h : l < m.locks.fresh) : m.put l (m.lock l) = m := by
  show { m with locks := m.locks.set l (m.locks.get l) } = m
  rw [Arena.set_get_self _ h]

theorem removeEntry_put {table : TableId} (hk : k.identifier = (m.lock l).identifier) :
    (m.put l k).removeEntry table l = (m.removeEntry table l).put l k := by
  rw [removeEntry, lock_put_self, hk]
  rfl

theorem forgo_retain {t : TableId} (h : m.isAlive t) : (m.retain t).forgo t = m := by
  have hlt (j : TableId) (hj : j ∈ [t]) : j < m.tables.fresh := by
    rw [List.mem_singleton.mp hj]
    exact lt_fresh_of_isAlive h
  exact forgoAll_retainAll hlt

theorem lt_fresh_of_owner {o : ThreadId} (h : (m.lock l).mutex.owner = some o) :
    l < m.locks.fresh := by
  by_contra hn
  have hd : m.lock l = default := Arena.get_of_fresh_le (Nat.le_of_not_lt hn)
  rw [hd] at h
  cases h

end Memory

/-! ## Running alone -/

namespace System

variable {s s' s₁ : System} {t : ThreadId} {c : Call} {o : Outcome} {k : Nat} {st : Step}

/-- Thread `t` goes on with its call until it returns `o`, and begins `k` waits thereby; nobody else
moves. -/
inductive Finishes (t : ThreadId) : System → Nat → Outcome → System → Prop where
  | last {s s' : System} {o : Outcome} {notes : List Note} : s.act t = some (s', notes) →
      .returned o ∈ notes → Finishes t s (s.phase t).beginsWait.toNat o s'
  | act {s s₁ s' : System} {k : Nat} {o : Outcome} {notes : List Note} :
      s.act t = some (s₁, notes) → Finishes t s₁ k o s' →
      Finishes t s ((s.phase t).beginsWait.toNat + k) o s'
  | rouse {s s₁ s' : System} {k : Nat} {o : Outcome} : s.rouse t = some s₁ →
      Finishes t s₁ k o s' → Finishes t s k o s'
  | tick {s s' : System} {k : Nat} {o : Outcome} (d : Nat) : Finishes t (s.tick d) k o s' →
      Finishes t s k o s'

/-- The call that `t` makes in `s` returns `o` after `k` waits and leads to `s'`; nobody else
moves. -/
def Alone (t : ThreadId) (c : Call) (s : System) (k : Nat) (o : Outcome) (s' : System) : Prop :=
  ∃ s₁, s.call t c = some s₁ ∧ Finishes t s₁ k o s'

theorem not_finishes (hi : s.phase t = .idle) : ¬ Finishes t s k o s' := by
  intro h
  have hact {r : System × List Note} {s : System} (hi : s.phase t = .idle)
      (h : s.act t = some r) : False := by
    obtain ⟨st, hst, -⟩ := act_eq_some_iff.mp h
    rw [hi] at hst
    cases hst
  induction h with
  | last h => exact hact hi h
  | act h => exact hact hi h
  | rouse h _ ih =>
    obtain ⟨l, -, rfl⟩ := rouse_eq_some_iff.mp h
    exact ih hi
  | tick d _ ih => exact ih hi

theorem Finishes.phase_eq (h : Finishes t s k o s') (u : ThreadId) :
    s'.phase u = if u = t then .idle else s.phase u := by
  have hact {s s' : System} {notes : List Note} (h : s.act t = some (s', notes)) (hu : u ≠ t) :
      s'.phase u = s.phase u := by
    obtain ⟨st, -, rfl, rfl⟩ := act_eq_some_iff.mp h
    exact phase_after_of_ne _ _ _ hu
  induction h with
  | last h ho =>
    split
    · next hu =>
      obtain ⟨st, hst, rfl, rfl⟩ := act_eq_some_iff.mp h
      rw [hu]
      exact (phase_after ..).trans ((Phase.next_tells hst).idle_of_returned ho)
    · next hu => exact hact h hu
  | act h _ ih =>
    rw [ih]
    split
    · rfl
    · next hu => exact hact h hu
  | rouse h _ ih =>
    obtain ⟨l, -, rfl⟩ := rouse_eq_some_iff.mp h
    exact ih
  | tick d _ ih => exact ih

theorem Alone.phase_eq (h : Alone t c s k o s') (u : ThreadId) : s'.phase u = s.phase u := by
  obtain ⟨s₁, hc, hf⟩ := h
  obtain ⟨hi, rfl⟩ := call_eq_some_iff.mp hc
  rw [hf.phase_eq]
  split
  · next hu => rw [hu, hi]
  · next hu => exact Arena.get_set_ne s.phases _ hu

theorem move_of_rouse (h : s.rouse t = some s') : s.move (.rouse t) = some (s', []) :=
  Option.map_eq_some_iff.mpr ⟨s', h, rfl⟩

/-! ## What a call has done when it returns -/

/-- What every move keeps tells what holds when the call returns. -/
theorem Finishes.induct {P : Nat → System → Prop} {Q : Nat → Outcome → System → Prop}
    (tick : ∀ {j s d}, P j s → P j (s.tick d))
    (rouse : ∀ {j s l}, P j s → s.asleepOn t = some l →
      P j { s with memory := s.memory.rouse l t })
    (act : ∀ {j s st}, P j s → (s.phase t).next t s.now s.memory = some st →
      (P (j + (s.phase t).beginsWait.toNat) (s.after t st) ∧ ∀ o, .returned o ∉ st.notes) ∨
        st.phase = .idle ∧ ∀ o, .returned o ∈ st.notes →
          Q (j + (s.phase t).beginsWait.toNat) o (s.after t st))
    (h : Finishes t s k o s') {j : Nat} (hp : P j s) : Q (j + k) o s' := by
  induction h generalizing j with
  | last hact ho =>
    obtain ⟨st, hst, rfl, rfl⟩ := act_eq_some_iff.mp hact
    rcases act hp hst with ⟨-, hn⟩ | ⟨-, hq⟩
    · exact absurd ho (hn _)
    · exact hq _ ho
  | act hact hf ih =>
    obtain ⟨st, hst, rfl, rfl⟩ := act_eq_some_iff.mp hact
    rcases act hp hst with ⟨hp', -⟩ | ⟨hi, -⟩
    · rw [← Nat.add_assoc]
      exact ih hp'
    · exact absurd hf (not_finishes ((phase_after ..).trans hi))
  | rouse hr _ ih =>
    obtain ⟨l, hl, rfl⟩ := rouse_eq_some_iff.mp hr
    exact ih (rouse hp hl)
  | tick d _ ih => exact ih (tick hp)

/-! ## That a call returns -/

/-- Thread `t` can go on with its call until it returns `o` after `k` waits; nobody else has to
move. -/
def CanFinish (t : ThreadId) (s : System) (k : Nat) (o : Outcome) : Prop :=
  ∃ s', Finishes t s k o s'

theorem CanFinish.of_act (hst : (s.phase t).next t s.now s.memory = some st)
    (hb : (s.phase t).beginsWait = false) (h : CanFinish t (s.after t st) k o) :
    CanFinish t s k o := by
  obtain ⟨s', hf⟩ := h
  have hact : Finishes t s ((s.phase t).beginsWait.toNat + k) o s' :=
    .act (act_eq_some_iff.mpr ⟨st, hst, rfl, rfl⟩) hf
  rw [hb, Bool.toNat_false, Nat.zero_add] at hact
  exact ⟨s', hact⟩

theorem CanFinish.of_enter (hst : (s.phase t).next t s.now s.memory = some st)
    (hb : (s.phase t).beginsWait) (h : CanFinish t (s.after t st) k o) :
    CanFinish t s (k + 1) o := by
  obtain ⟨s', hf⟩ := h
  have hact : Finishes t s ((s.phase t).beginsWait.toNat + k) o s' :=
    .act (act_eq_some_iff.mpr ⟨st, hst, rfl, rfl⟩) hf
  rw [hb, Bool.toNat_true, Nat.add_comm] at hact
  exact ⟨s', hact⟩

theorem CanFinish.of_last (hst : (s.phase t).next t s.now s.memory = some st)
    (hb : (s.phase t).beginsWait = false) (ho : .returned o ∈ st.notes) : CanFinish t s 0 o := by
  have hlast : Finishes t s (s.phase t).beginsWait.toNat o _ :=
    .last (act_eq_some_iff.mpr ⟨st, hst, rfl, rfl⟩) ho
  rw [hb] at hlast
  exact ⟨_, hlast⟩

theorem CanFinish.of_tick (d : Nat) (h : CanFinish t (s.tick d) k o) : CanFinish t s k o := by
  obtain ⟨s', hf⟩ := h
  exact ⟨s', .tick d hf⟩

theorem CanFinish.of_rouse (hr : s.rouse t = some s₁) (h : CanFinish t s₁ k o) :
    CanFinish t s k o := by
  obtain ⟨s', hf⟩ := h
  exact ⟨s', .rouse hr hf⟩

end System

end KeyedLocks
