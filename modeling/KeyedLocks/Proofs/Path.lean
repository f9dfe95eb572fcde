import KeyedLocks.Proofs.Acquisition
import KeyedLocks.Proofs.Release

/-!
# The way to a lock

`Phase.Path me m p m' p'` lists what an action can do that leads a thread on its way to a lock one
phase further: where it comes from, what it has found in the memory, and where it goes.
`Phase.next_path` says that every action that leads to such a phase is one of these, so no other
call ever gets there, and what follows about budgets, queues and orders of locks is proved about
`Path`.
-/

namespace KeyedLocks

/-- The thread is on its way to a lock. -/
def Phase.pursues : Phase → Bool
  | .lookUp .. | .insert .. => true
  | p => p.attempt?.isSome

theorem Phase.pursues_of_attempt? {p : Phase} {a : Attempt} (h : p.attempt? = some a) :
    p.pursues := by
  unfold pursues
  split
  · rfl
  · rfl
  · rw [h]
    rfl

/-- What an action of `me` leads to that goes on its way to a lock. -/
inductive Phase.Path (me : ThreadId) (m : Memory) : Phase → Memory → Phase → Prop where
  | found {p : Phase} {table : TableId} {i : String} {l : LockId} :
      (m.table table).find? i = some l → p = .lookUp table i ∨ p = .insert table i →
      Path me m p m (.tryTake (.ofEntry m table l))
  | absent {m' : Memory} {table : TableId} {i : String} : (m.table table).find? i = none →
      Path me m (.lookUp table i) m' (.insert table i)
  | create {table : TableId} {i : String} : (m.table table).find? i = none →
      Path me m (.insert table i) (m.addEntry table i) (.tryTake (.ofEntry m table m.locks.fresh))
  | take {p : Phase} {m' : Memory} {a : Attempt} :
      p = .tryTake a ∨ (∃ left d s, p = .waiting (.attempt a left) d s) →
      Path me m p m' (.readClosed a)
  | miss {m' : Memory} {a : Attempt} {o : ThreadId} : (m.lock a.lock).mutex.owner = some o →
      o ≠ me → Path me m (.tryTake a) m' (.readQueue a)
  | room {m' : Memory} {a : Attempt} :
      a.policy.queueLimitReached (m.lock a.lock).mutex.queueLength = false →
      Path me m (.readQueue a) m'
        (.checking (.attempt a (a.policy.attempts.map (· - 1))) .isLocked)
  | check {m' : Memory} {a : Attempt} {left : Option Nat} {c c' : Check} :
      Path me m (.checking (.attempt a left) c) m' (.checking (.attempt a left) c')
  | pass {m' : Memory} {a : Attempt} {left : Option Nat} {c : Check} :
      Path me m (.checking (.attempt a left) c) m' (.spend a left)
  | spend {m' : Memory} {a : Attempt} {left d : Option Nat} : left ≠ some 0 →
      Path me m (.spend a left) m' (.waiting (.attempt a (left.map (· - 1))) d .enter)
  | wait {m' : Memory} {a : Attempt} {left d : Option Nat} {s s' : WaitStage} : s' ≠ .enter →
      Path me m (.waiting (.attempt a left) d s) m' (.waiting (.attempt a left) d s')
  | timeOut {m' : Memory} {a : Attempt} {left d : Option Nat} :
      Path me m (.waiting (.attempt a left) d .doze) m' (.checking (.attempt a left) .isLocked)
  | shut {m' : Memory} {a : Attempt} : (m.lock a.lock).closed →
      Path me m (.readClosed a) m' (.backOut a)
  | backOut {m' : Memory} {a : Attempt} {p' : Phase} : p' = .discard a ∨ p' = .notifyBackOut a →
      Path me m (.backOut a) m' p'
  | backedOut {m' : Memory} {a : Attempt} : Path me m (.notifyBackOut a) m' (.discard a)
  | discard {m' : Memory} {a : Attempt} {table : TableId} : a.table = some table →
      Path me m (.discard a) m' (.lookUp table (a.identifier m))

section
variable {me : ThreadId} {now : Nat} {m : Memory} {p : Phase} {st : Step} {a : Attempt}

/-- **Every action that leads a thread to a phase on its way to a lock is on that way.** -/
theorem Phase.next_path (h : p.next me now m = some st) (hs : st.phase.pursues) :
    p.Path me m st.memory st.phase := by
  cases next_acts h with
  | found hf => exact .found hf (.inl rfl)
  | foundLate hf => exact .found hf (.inr rfl)
  | absent hf => exact .absent hf
  | create hf => exact .create hf
  | take => exact .take (.inl rfl)
  | miss _ hx =>
    obtain ⟨o, hne, ho⟩ := Mutex.take?_eq_none_iff.mp hx
    exact .miss ho hne
  | room _ hq => exact .room hq
  | pass => exact .pass
  | spend hl => exact .spend hl
  | shut hc => exact .shut hc
  | backOut | backOutFails => exact .backOut (.inl rfl)
  | backOutLast => exact .backOut (.inr rfl)
  | backedOut => exact .backedOut
  | discard ht => exact .discard ht
  | @check e | @listTables e | @listed e =>
    cases e with
    | attempt => exact .check
    | plain => cases hs
  | @acquire e | @grab e =>
    cases e with
    | attempt => exact .take (.inr ⟨_, _, _, rfl⟩)
    | plain => cases hs
  | @enter e | @drowse e | @sleep e | @rise e =>
    cases e with
    | attempt => exact .wait (by decide)
    | plain => cases hs
  | @timeOut e =>
    cases e with
    | attempt => exact .timeOut
    | plain => cases hs
  | @heed e => cases e <;> cases hs
  | _ => cases hs

theorem Action.phase_of_run {b : Action} (h : b.run me m = some st) : st.phase = .idle := by
  have hacts : (Phase.acting b).Acts me 0 m st := b.run_acts h
  cases hacts <;> rfl

/-! ## Where a way begins and ends -/

theorem Phase.exists_pursues (hp : p.pursues) : ∃ c : Call, c.Pursues p := by
  have hattempt {a : Attempt} (ha : p.attempt? = some a) : ∃ c : Call, c.Pursues p := by
    rcases ht : a.table with _ | table
    · refine ⟨.take a.lock a.policy, ha.trans ?_⟩
      rw [← ht]
    · exact ⟨.obtain table "", .inr ⟨a, ha, ht⟩⟩
  unfold pursues at hp
  split at hp
  · next table i => exact ⟨.obtain table i, .inl ⟨i, .inl rfl⟩⟩
  · next table i => exact ⟨.obtain table i, .inl ⟨i, .inr rfl⟩⟩
  · obtain ⟨a, ha⟩ := Option.isSome_iff_exists.mp hp
    exact hattempt ha

theorem Call.Pursues.pursues {c : Call} (hp : c.Pursues p) : p.pursues := by
  cases c with
  | obtain =>
    rcases hp with ⟨i, rfl | rfl⟩ | ⟨a, ha, -⟩
    · rfl
    · rfl
    · exact Phase.pursues_of_attempt? ha
  | take => exact Phase.pursues_of_attempt? hp
  | _ => cases hp

/-- A thread on its way goes on without an answer, or its call is over. -/
theorem Phase.next_of_pursues (hp : p.pursues) (h : p.next me now m = some st) :
    st.phase.pursues ∧ (∀ o, .returned o ∉ st.notes) ∨ st.phase = .idle := by
  obtain ⟨c, hc⟩ := exists_pursues hp
  rcases hc.next h with ⟨hc', hn⟩ | ⟨hi, -⟩
  · exact .inl ⟨hc'.pursues, hn⟩
  · exact .inr hi

theorem Phase.Path.pursues {m' : Memory} {p' : Phase} (h : p.Path me m m' p') : p.pursues := by
  cases h with
  | found _ hp => rcases hp with rfl | rfl <;> rfl
  | take hp => rcases hp with rfl | ⟨left, d, s, rfl⟩ <;> rfl
  | _ => rfl

end

end KeyedLocks
