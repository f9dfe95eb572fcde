import KeyedLocks.Proofs.Attempts
import KeyedLocks.Proofs.LockOrder
import KeyedLocks.Proofs.Refusal

/-!
# Threads that hold nothing

A deadlock check of a thread that holds nothing finds nobody who waits for it, whatever others do in
the meantime (`Check.Vain`); and attempts are counted only where the policy limits them
(`Phase.Metered`). So a thread without a hold and without an interrupt is refused by its policy, or
not at all (`Session.Reachable.byPolicy_of_refused`).
-/

namespace KeyedLocks

/-! ## Checks that find nobody -/

/-- Nobody was found to wait for `me`, so the check has not got beyond asking for `me` itself. -/
def Check.Vain (me : ThreadId) : Check → Prop
  | .search _ _ s => s.found = [] ∧ ∀ h ∈ s.pending, h = me
  | .scan _ _ s holder _ waiters =>
    s.found = [] ∧ (∀ h ∈ s.pending, h = me) ∧ holder = me ∧ waiters = []
  | .collect .. | .report => False
  | .isLocked | .isMine | .listTables | .listLocks .. | .readOwner _ => True

/-- The thread is at no check, or at one that has found nobody. -/
def Phase.Vain (me : ThreadId) : Phase → Prop
  | .checking _ c => c.Vain me
  | _ => True

section
variable {me : ThreadId} {now : Nat} {m m' : Memory} {p p' : Phase} {st : Step}

/-- **A thread that owns nothing finds nobody**, at whatever moment it looks. -/
theorem Check.Vain.next {c c' : Check} {target : LockId} (h : c.Vain me)
    (ho : ∀ l, (m.lock l).mutex.owner ≠ some me)
    (hn : c.next me m target = some (m', .more c')) : c'.Vain me := by
  have hmine (l : LockId) : (m.lock l).mutex.isHeldBy me = false := by
    rw [Mutex.isHeldBy, beq_eq_false_iff_ne]
    exact ho l
  rcases next_reads hn with ⟨rfl, hr⟩ | ⟨rfl, -, hv⟩ | ⟨kept, locks, rfl, -, hv⟩
  · cases hr with
    | locked | others | listLocks => trivial
    | owner => exact ⟨rfl, fun h hh => List.mem_singleton.mp hh⟩
    | visit hpending =>
      obtain ⟨hf, hp⟩ := h
      rw [hpending] at hp
      exact ⟨hf, fun h hh => hp h (List.mem_cons_of_mem _ hh), hp _ (List.mem_cons_self ..), rfl⟩
    | found _ hgoal =>
      rw [h.1] at hgoal
      cases hgoal
    | scanned =>
      obtain ⟨hf, hp, rfl, rfl⟩ := h
      exact ⟨hf, hp⟩
    | held _ hh =>
      obtain ⟨-, -, rfl, -⟩ := h
      rw [hmine] at hh
      cases hh
    | skipped => exact h
    | collected => exact h.elim
  · cases hv; trivial
  · cases hv; trivial

theorem Phase.Vain.next (hp : p.Vain me) (ho : p.midCheck → ∀ l, (m.lock l).mutex.owner ≠ some me)
    (h : p.next me now m = some st) : st.phase.Vain me := by
  cases hs : st.phase with
  | checking e c =>
    by_cases hc : c = .isLocked
    · rw [hc]
      trivial
    obtain ⟨c', rfl, hn⟩ := Phase.next_midCheck h hs hc
    by_cases hc' : c' = .isLocked
    · subst hc'
      rcases Check.next_reads hn with ⟨-, hr⟩ | ⟨h, -⟩ | ⟨_, _, h, -⟩
      · cases hr; trivial
      · cases h
      · cases h
    · exact Check.Vain.next hp (ho (Phase.midCheck_of_checking hc')) hn
  | _ => trivial

/-! ## Counts of attempts -/

/-- Attempts are counted only if the policy limits them. -/
def Phase.Metered : Phase → Prop
  | .checking (.attempt a left) _ | .spend a left | .waiting (.attempt a left) _ _ =>
    left.isSome → a.policy.attempts.isSome
  | _ => True

theorem Phase.Path.metered (h : p.Path me m m' p') (hp : p.Metered) : p'.Metered := by
  cases h with
  | room =>
    intro hl
    rwa [Option.isSome_map] at hl
  | spend =>
    intro hl
    rw [Option.isSome_map] at hl
    exact hp hl
  | check | pass | wait | timeOut => exact hp
  | backOut hp' => rcases hp' with rfl | rfl <;> trivial
  | _ => trivial

theorem Phase.metered_of_not_pursues (hp : ¬ p.pursues) : p.Metered := by
  unfold Metered
  split
  · exact absurd rfl hp
  · exact absurd rfl hp
  · exact absurd rfl hp
  · trivial

end

/-! ## Refusals -/

/-- An error that tells of a limit of the policy. -/
inductive LockError.ByPolicy (p : Policy) : LockError → Prop where
  | queue {i : String} {n k : Nat} : p.queueLimit = some k → ByPolicy p (.tooManyQueued i n k)
  | attempts {i : String} {n : Nat} : p.attempts = some n → ByPolicy p (.attemptsExceeded i n)

namespace Session

variable {x y : Session} {t : ThreadId} {m : Move}

/-- The thread was granted no hold that it has not given back. -/
def EmptyHanded (x : Session) (t : ThreadId) : Prop := ∀ l, outstanding x.deals t l = 0

theorem EmptyHanded.not_owner (ht : x.EmptyHanded t) (h : x.Orderly)
    (hf : ∀ l, (x.phase t).stake.inFlight l = 0) (l : LockId) :
    (x.memory.lock l).mutex.owner ≠ some t := by
  intro ho
  have hheld : 0 < x.memory.holdings.held l t := Mutex.holdsOf_of_owner (h.1 l) ho
  have hacc := h.2.account l t
  simp only [hf, ht l] at hacc
  omega

theorem Reachable.metered (hx : x.Reachable) (t : ThreadId) : (x.phase t).Metered := by
  induction hx with
  | start => trivial
  | @move x y m _ hm hy ih =>
    by_cases hp : (y.phase t).pursues
    · rcases path_of_move hy hp with ⟨-, hpath⟩ | ⟨c, rfl, -, hc⟩ | ⟨-, he⟩
      · exact hpath.metered ih
      · rw [hc]
        cases c <;> trivial
      · rw [he]
        exact ih
    · exact Phase.metered_of_not_pursues hp

/-- **A thread without a hold and without an interrupt is refused by its policy, or not at all.** -/
theorem Reachable.byPolicy_of_refused {table : TableId} {i : String} {e : LockError} {st : Step}
    (hx : x.Reachable) (hp : (Call.obtain table i).Pursues (x.phase t)) (hv : (x.phase t).Vain t)
    (hi : ¬ x.memory.isInterrupted t)
    (h : (x.phase t).next t x.system.now x.memory = some st)
    (he : .returned (.refused e) ∈ st.notes) : e.ByPolicy (x.memory.table table).policy := by
  have hmetered := hx.metered t
  have hpolicy {a : Attempt} (ha : (x.phase t).attempt? = some a) :
      a.policy = (x.memory.table table).policy := by
    rcases hp with ⟨j, hj | hj⟩ | ⟨b, hb, ht⟩
    · rw [hj] at ha
      cases ha
    · rw [hj] at ha
      cases ha
    · obtain rfl : b = a := Option.some.inj (hb.symm.trans ha)
      exact hx.policy ha ht
  have hrefusal := Phase.next_refusal h he rfl
  generalize hph : x.phase t = p at hp hv hmetered hpolicy hrefusal
  cases hrefusal with
  | queueFull hk =>
    rw [hpolicy rfl] at hk
    exact .queue hk
  | spent =>
    obtain ⟨n, hn⟩ := Option.isSome_iff_exists.mp (hmetered rfl)
    rw [hn, Option.getD_some]
    rw [hpolicy rfl] at hn
    exact .attempts hn
  | interrupted hf => exact absurd hf hi
  | deadlock => exact hv.elim
  | unreleased => rcases hp with ⟨j, hj | hj⟩ | ⟨b, hb, -⟩ <;> contradiction
  | unlocked => rcases hp with ⟨j, hj | hj⟩ | ⟨b, hb, -⟩ <;> contradiction

end Session

end KeyedLocks
