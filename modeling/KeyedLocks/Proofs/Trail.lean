import KeyedLocks.Proofs.Budget
import KeyedLocks.Proofs.Refusal

/-!
# The trail of one lock

From the first try of a lock to its last, a thread checks for deadlocks, waits, checks again, and so
on. `System.Locking t a s₀ ms s` follows thread `t` from its first try on, whatever the others do,
and keeps a record `ms` of it, one `Mark` for what each action begins or ends.

Such a record consists of rounds. A round is a check that passes, then a wait, and another round
follows if the wait has timed out (`Phase.Trail`). So attempts are neither cut short nor overrun
(`System.Locking.attempts_exact`): every wait but the last has timed out, a check has passed right
before it, and the attempts of the policy are used up by exactly one wait less.
-/

namespace KeyedLocks

/-- What a thread begins or ends on its way to one lock. -/
inductive Mark where
  | check
  /-- The check found nothing against waiting. -/
  | pass
  | wait
  | over (r : WaitResult)
deriving Repr, DecidableEq

/-- The marks of an action that leads from one phase of an acquisition to another. -/
def Phase.marks : Phase → Phase → List Mark
  | .readQueue _, .checking .. => [.check]
  | .checking .., .spend .. => [.pass]
  | .spend .., .waiting .. => [.wait]
  | .waiting .., .checking .. => [.over .timedOut, .check]
  | .waiting .., .readClosed _ => [.over .acquired]
  | .waiting .., .idle => [.over .interrupted]
  | _, _ => []

/-! ## Rounds -/

namespace Mark

/-- A check that passes and a wait with its result. -/
def round (r : WaitResult) : List Mark := [.check, .pass, .wait, .over r]

/-- Rounds whose waits have timed out. -/
def rounds (k : Nat) : List Mark := (List.replicate k (round .timedOut)).flatten

theorem rounds_succ (k : Nat) : rounds (k + 1) = round .timedOut ++ rounds k := by
  rw [rounds, List.replicate_succ, List.flatten_cons]
  rfl

/-- One more round may as well be the last one. -/
theorem rounds_succ_last (k : Nat) : rounds (k + 1) = rounds k ++ round .timedOut := by
  rw [rounds, List.replicate_succ', List.flatten_append, List.flatten_singleton]
  rfl

theorem count_rounds {x : Mark} (h : (round .timedOut).count x = 1) (k : Nat) :
    (rounds k).count x = k := by
  induction k with
  | zero => rfl
  | succ k ih =>
    rw [rounds_succ, List.count_append, h, ih]
    omega

theorem over_of_mem_rounds {r : WaitResult} {k : Nat} (h : .over r ∈ rounds k) :
    r = .timedOut := by
  obtain ⟨ms, hms, hr⟩ := List.mem_flatten.mp h
  rw [List.eq_of_mem_replicate hms] at hr
  simpa [round] using hr

/-- A wait after which there is another one has timed out. -/
def Followed (ms : List Mark) : Prop :=
  ∀ u v, ms = u ++ .wait :: v → .wait ∈ v → ∃ v', v = .over .timedOut :: v'

/-- Right before each wait a check has passed. -/
def Vetted (ms : List Mark) : Prop := ∀ u v, ms = u ++ .wait :: v → ∃ u', u = u' ++ [.check, .pass]

theorem eq_of_round_append {r : WaitResult} {ms u v : List Mark}
    (h : round r ++ ms = u ++ .wait :: v) :
    (u = [.check, .pass] ∧ v = .over r :: ms) ∨
      ∃ u', u = round r ++ u' ∧ ms = u' ++ .wait :: v := by
  rcases u with _ | ⟨x₁, _ | ⟨x₂, _ | ⟨x₃, _ | ⟨x₄, u⟩⟩⟩⟩ <;>
    simp only [round, List.cons_append, List.nil_append, List.cons.injEq, reduceCtorEq,
      false_and, and_false] at h
  · obtain ⟨rfl, rfl, -, rfl⟩ := h
    exact .inl ⟨rfl, rfl⟩
  · obtain ⟨rfl, rfl, rfl, rfl, rfl⟩ := h
    exact .inr ⟨u, rfl, rfl⟩

theorem Followed.rounds {ms : List Mark} (h : Followed ms) (k : Nat) :
    Followed (rounds k ++ ms) := by
  induction k with
  | zero => exact h
  | succ k ih =>
    intro u v he hv
    rw [rounds_succ, List.append_assoc] at he
    rcases eq_of_round_append he with ⟨-, rfl⟩ | ⟨u', -, he'⟩
    · exact ⟨_, rfl⟩
    · exact ih u' v he' hv

theorem Vetted.rounds {ms : List Mark} (h : Vetted ms) (k : Nat) : Vetted (rounds k ++ ms) := by
  induction k with
  | zero => exact h
  | succ k ih =>
    intro u v he
    rw [rounds_succ, List.append_assoc] at he
    rcases eq_of_round_append he with ⟨rfl, -⟩ | ⟨u', rfl, he'⟩
    · exact ⟨[], rfl⟩
    · obtain ⟨w, rfl⟩ := ih u' v he'
      exact ⟨round .timedOut ++ w, (List.append_assoc ..).symm⟩

variable {r : WaitResult} {tail : List Mark}

/-- The wait of a round that may not be over. -/
theorem eq_of_isPrefix_round {u v : List Mark} (h : tail <+: round r)
    (he : tail = u ++ .wait :: v) : u = [.check, .pass] ∧ v <+: [.over r] := by
  obtain ⟨w, hw⟩ := h
  rw [he, List.append_assoc, List.cons_append, ← List.append_nil (round r)] at hw
  rcases eq_of_round_append hw.symm with ⟨rfl, hv⟩ | ⟨u', -, hn⟩
  · exact ⟨rfl, w, hv⟩
  · exact absurd hn (by simp)

theorem followed_of_isPrefix_round (h : tail <+: round r) : Followed tail := by
  intro u v he hv
  obtain ⟨-, hp⟩ := eq_of_isPrefix_round h he
  cases List.mem_singleton.mp (hp.subset hv)

theorem vetted_of_isPrefix_round (h : tail <+: round r) : Vetted tail := by
  intro u v he
  exact ⟨[], (eq_of_isPrefix_round h he).1⟩

end Mark

open Mark

/-! ## Phases and rounds -/

/-- After `k` waits, so much is left of the attempts, and there were that many. -/
def Attempt.Left (a : Attempt) (k : Nat) (left : Option Nat) : Prop :=
  left = a.policy.attempts.map (· - 1 - k) ∧ ∀ n ∈ a.policy.attempts, k < n

namespace Attempt

variable {a : Attempt} {k : Nat} {left : Option Nat}

theorem left_zero (a : Attempt) : a.Left 0 (a.policy.attempts.map (· - 1)) :=
  ⟨rfl, fun n hn => (a.policy.attempts_valid n hn).1⟩

theorem Left.spend (h : a.Left k left) (hl : left ≠ some 0) :
    a.Left (k + 1) (left.map (· - 1)) := by
  obtain ⟨rfl, hlt⟩ := h
  refine ⟨?_, fun n hn => ?_⟩
  · rw [Option.map_map]
    rfl
  · have hk := hlt n hn
    rw [hn, Option.map_some] at hl
    have h0 : n - 1 - k ≠ 0 := fun h => hl (by rw [h])
    omega

theorem Left.total (h : a.Left k left) : left.map (· + k + 1) = a.policy.attempts := by
  obtain ⟨rfl, hlt⟩ := h
  rcases ha : a.policy.attempts with _ | n
  · rfl
  · have hk := hlt n ha
    simp only [Option.map_some, Option.some.injEq]
    omega

end Attempt

/-- The thread is between its first try of the lock and the end of its work on it. -/
def Phase.worksOn (a : Attempt) (p : Phase) : Prop := p.attempt? = some a ∧ p ≠ .discard a

instance (a : Attempt) (p : Phase) : Decidable (p.worksOn a) := inferInstanceAs (Decidable (_ ∧ _))

/-- The counter of a thread that checks or waits. -/
def Phase.left? : Phase → Option (Option Nat)
  | .checking (.attempt _ left) _ | .spend _ left | .waiting (.attempt _ left) _ _ => some left
  | _ => none

/-- The work on the lock is over, but for finding out whether it is closed. -/
def Phase.isLate : Phase → Bool
  | .readClosed _ | .backOut _ | .notifyBackOut _ | .discard _ | .idle => true
  | _ => false

theorem Phase.left?_of_isLate {p : Phase} (h : p.isLate) : p.left? = none := by
  unfold isLate at h
  split at h
  all_goals first | rfl | cases h

/-- After `k` rounds that have timed out, the last round is at `tail`. -/
inductive Phase.Trail (a : Attempt) (k : Nat) : List Mark → Phase → Prop where
  | fresh {p : Phase} : p = .tryTake a ∨ p = .readQueue a → k = 0 → Trail a k [] p
  | check {left : Option Nat} {c : Check} : a.Left k left →
      Trail a k [.check] (.checking (.attempt a left) c)
  | pass {left : Option Nat} : a.Left k left → Trail a k [.check, .pass] (.spend a left)
  | wait {left d : Option Nat} {s : WaitStage} : a.Left (k + 1) left →
      Trail a k [.check, .pass, .wait] (.waiting (.attempt a left) d s)
  | late {p : Phase} {r : WaitResult} {tail : List Mark} : p.isLate → tail <+: round r →
      (∀ n ∈ a.policy.attempts, k + tail.count .wait < n) → Trail a k tail p

namespace Phase

section
variable {me : ThreadId} {now k : Nat} {m : Memory} {p : Phase} {st : Step} {a : Attempt}
  {tail : List Mark}

/-! What the phase tells about the trail. -/

theorem Trail.of_readQueue {b : Attempt} (h : (Phase.readQueue b).Trail a k tail) :
    k = 0 ∧ tail = [] := by
  cases h with
  | fresh _ hk => exact ⟨hk, rfl⟩
  | late hl => cases hl

theorem Trail.of_checking {b : Attempt} {left : Option Nat} {c : Check}
    (h : (Phase.checking (.attempt b left) c).Trail a k tail) :
    tail = [.check] ∧ a.Left k left := by
  cases h with
  | check hl => exact ⟨rfl, hl⟩
  | fresh hp => rcases hp with hp | hp <;> cases hp
  | late hl => cases hl

theorem Trail.of_spend {b : Attempt} {left : Option Nat}
    (h : (Phase.spend b left).Trail a k tail) : tail = [.check, .pass] ∧ a.Left k left := by
  cases h with
  | pass hl => exact ⟨rfl, hl⟩
  | fresh hp => rcases hp with hp | hp <;> cases hp
  | late hl => cases hl

theorem Trail.of_waiting {b : Attempt} {left d : Option Nat} {s : WaitStage}
    (h : (Phase.waiting (.attempt b left) d s).Trail a k tail) :
    tail = [.check, .pass, .wait] ∧ a.Left (k + 1) left := by
  cases h with
  | wait hl => exact ⟨rfl, hl⟩
  | fresh hp => rcases hp with hp | hp <;> cases hp
  | late hl => cases hl

theorem Trail.last (h : p.Trail a k tail) : (∃ r, tail <+: round r) ∧
    ∀ n ∈ a.policy.attempts, k + tail.count .wait < n := by
  cases h with
  | fresh _ hk =>
    subst hk
    exact ⟨⟨.timedOut, List.nil_prefix⟩, a.left_zero.2⟩
  | check hl | pass hl | wait hl => exact ⟨⟨.timedOut, by decide⟩, hl.2⟩
  | late _ hp hb => exact ⟨⟨_, hp⟩, hb⟩

/-- When the work on the lock is over, the result of a wait may come to the trail, and no more. -/
theorem Trail.end (h : p.Trail a k tail) {q : Phase} (hq : q.isLate)
    (hm : p.marks q = [] ∨ ∃ r b left d s, p.marks q = [.over r] ∧
      p = .waiting (.attempt b left) d s) : q.Trail a k (tail ++ p.marks q) := by
  rcases hm with hm | ⟨r, b, left, d, s, hm, rfl⟩
  · obtain ⟨⟨r, hr⟩, hb⟩ := h.last
    rw [hm, List.append_nil]
    exact .late hq hr hb
  · obtain ⟨rfl, hl⟩ := h.of_waiting
    rw [hm]
    exact .late hq (List.prefix_refl (round r)) hl.2

/-- One action further, the trail is that of the phase reached. -/
theorem Trail.next (h : p.Trail a k tail) (hp : p.worksOn a) (hst : p.next me now m = some st) :
    ∃ k' tail', st.phase.Trail a k' tail' ∧
      rounds k ++ (tail ++ p.marks st.phase) = rounds k' ++ tail' := by
  obtain ⟨ha, hd⟩ := hp
  rcases next_of_pursues (pursues_of_attempt? ha) hst with ⟨hpur, -⟩ | hi
  · have hpath := next_path hst hpur
    generalize st.memory = m', st.phase = q at hpath ⊢
    cases hpath with
    | found _ hp' => rcases hp' with rfl | rfl <;> cases ha
    | absent | create => cases ha
    | take hp' =>
      refine ⟨k, _, h.end rfl ?_, rfl⟩
      rcases hp' with rfl | ⟨left, d, s, rfl⟩
      · exact .inl rfl
      · exact .inr ⟨.acquired, _, left, d, s, rfl, rfl⟩
    | miss =>
      cases ha
      cases h with
      | fresh _ hk => exact ⟨k, [], .fresh (.inr rfl) hk, rfl⟩
      | late hl => cases hl
    | room =>
      cases ha
      obtain ⟨rfl, rfl⟩ := h.of_readQueue
      exact ⟨0, [.check], .check (Attempt.left_zero _), rfl⟩
    | check =>
      cases ha
      obtain ⟨rfl, hl⟩ := h.of_checking
      exact ⟨k, _, .check hl, rfl⟩
    | pass =>
      cases ha
      obtain ⟨rfl, hl⟩ := h.of_checking
      exact ⟨k, _, .pass hl, rfl⟩
    | spend hne =>
      cases ha
      obtain ⟨rfl, hl⟩ := h.of_spend
      exact ⟨k, _, .wait (hl.spend hne), rfl⟩
    | wait =>
      cases ha
      obtain ⟨rfl, hl⟩ := h.of_waiting
      exact ⟨k, _, .wait hl, rfl⟩
    | timeOut =>
      cases ha
      obtain ⟨rfl, hl⟩ := h.of_waiting
      refine ⟨k + 1, [.check], .check hl, ?_⟩
      rw [rounds_succ_last, List.append_assoc]
      rfl
    | shut | backedOut => exact ⟨k, _, h.end rfl (.inl rfl), rfl⟩
    | backOut hq => rcases hq with rfl | rfl <;> exact ⟨k, _, h.end rfl (.inl rfl), rfl⟩
    | discard =>
      cases ha
      exact absurd rfl hd
  · rw [hi]
    refine ⟨k, _, h.end rfl ?_, rfl⟩
    cases p with
    | waiting e d s =>
      cases e with
      | attempt b left => exact .inr ⟨.interrupted, b, left, d, s, rfl, rfl⟩
      | plain l => cases ha
    | _ => exact .inl rfl

theorem Trail.total (h : p.Trail a k tail) {left : Option Nat} (hl : p.left? = some left) :
    left.map (· + (k + tail.count .wait) + 1) = a.policy.attempts := by
  cases h with
  | fresh hp => rcases hp with rfl | rfl <;> cases hl
  | check h | pass h | wait h =>
    obtain rfl := Option.some.inj hl
    exact h.total
  | late hp =>
    rw [left?_of_isLate hp] at hl
    cases hl

end

end Phase

/-! ## Work on one lock -/

/-- What a refusal says about the marks before it. -/
def Attempt.Explains (a : Attempt) (ms : List Mark) : LockError → Prop
  | .attemptsExceeded _ n => a.policy.attempts = some n ∧ ms.count .wait = n - 1 ∧
    ms.count (.over .timedOut) = n - 1 ∧ (∀ r, .over r ∈ ms → r = .timedOut) ∧ ms.count .pass = n
  | .tooManyQueued .. => ms = []
  | _ => True

namespace System

variable {s s' s₀ : System} {t : ThreadId} {a : Attempt} {ms : List Mark}

/-- The marks of a move, if it is an action of `t`. -/
def marks (t : ThreadId) (s : System) (m : Move) (s' : System) : List Mark :=
  if m = .act t then (s.phase t).marks (s'.phase t) else []

/-- From its first try of a lock in `s₀` on, thread `t` has worked on it, with these marks; others
do what they like. -/
inductive Locking (t : ThreadId) (a : Attempt) (s₀ : System) : List Mark → System → Prop where
  | start : s₀.phase t = .tryTake a → Locking t a s₀ [] s₀
  | move {s s' : System} {m : Move} {ns : List (ThreadId × Note)} {ms : List Mark} :
      Locking t a s₀ ms s → (s.phase t).worksOn a → s.move m = some (s', ns) →
      Locking t a s₀ (ms ++ marks t s m s') s'

/-- The marks are those of rounds that have timed out and of a last one. -/
theorem Locking.trail (h : Locking t a s₀ ms s) :
    ∃ k tail, (s.phase t).Trail a k tail ∧ ms = rounds k ++ tail := by
  induction h with
  | start hp =>
    rw [hp]
    exact ⟨0, [], .fresh (.inl rfl) rfl, rfl⟩
  | @move s s' m ns ms _ hl hm ih =>
    obtain ⟨k, tail, ht, rfl⟩ := ih
    have hmoved := moved hm
    unfold marks
    split
    · next hact =>
      subst hact
      cases hmoved with
      | act hst =>
        rw [phase_after, List.append_assoc]
        exact ht.next hl hst
    · next hact =>
      have hi : s.phase t ≠ .idle := by
        intro h
        rw [h] at hl
        cases hl.1
      rw [phase_of_moved hmoved hi hact, List.append_nil]
      exact ⟨k, tail, ht, rfl⟩

theorem Locking.explains (h : Locking t a s₀ ms s) {notes : List Note} {e : LockError}
    (hl : (s.phase t).worksOn a) (hact : s.act t = some (s', notes))
    (ho : .returned (.refused e) ∈ notes) : a.Explains ms e := by
  obtain ⟨k, tail, ht, rfl⟩ := h.trail
  obtain ⟨st, hst, rfl, -⟩ := act_eq_some_iff.mp hact
  generalize s.phase t = p at ht hl hst
  cases Phase.next_refusal hst ho rfl with
  | queueFull =>
    obtain ⟨rfl, rfl⟩ := ht.of_readQueue
    rfl
  | spent =>
    obtain rfl := Option.some.inj hl.1
    obtain ⟨rfl, hk⟩ := ht.of_spend
    have hn := hk.total.symm
    rw [Option.map_some, Nat.zero_add] at hn
    rw [hn]
    show _ = some (k + 1) ∧ _ ∧ _ ∧ _ ∧ _
    refine ⟨hn, ?_, ?_, fun r hr => ?_, ?_⟩
    · rw [List.count_append, count_rounds rfl]
      rfl
    · rw [List.count_append, count_rounds rfl]
      rfl
    · rcases List.mem_append.mp hr with hr | hr
      · exact over_of_mem_rounds hr
      · simp at hr
    · rw [List.count_append, count_rounds rfl]
      rfl
  | interrupted | deadlock | unreleased | unlocked => trivial

/-- **Attempts are neither cut short nor overrun.** Whatever the others do while a thread works on a
lock, every wait with another one after it has timed out, a check has passed right before each wait,
there is at least one wait less than the policy has attempts, and what the counter says is left
makes up the difference. When the attempts are used up, all waits have timed out and all checks have
passed, and a full queue is found before any of them. -/
theorem Locking.attempts_exact (h : Locking t a s₀ ms s) :
    Followed ms ∧ Vetted ms ∧ (∀ n ∈ a.policy.attempts, ms.count .wait ≤ n - 1) ∧
    (∀ left, (s.phase t).left? = some left →
      left.map (· + ms.count .wait + 1) = a.policy.attempts) ∧
    ∀ s' notes e, (s.phase t).worksOn a → s.act t = some (s', notes) →
      .returned (.refused e) ∈ notes → a.Explains ms e := by
  obtain ⟨k, tail, ht, hms⟩ := h.trail
  obtain ⟨⟨r, hr⟩, hb⟩ := ht.last
  have hwaits : ms.count .wait = k + tail.count .wait := by
    rw [hms, List.count_append, count_rounds rfl]
  refine ⟨?_, ?_, fun n hn => ?_, fun left hleft => ?_, fun s' notes e => h.explains⟩
  · rw [hms]
    exact (followed_of_isPrefix_round hr).rounds k
  · rw [hms]
    exact (vetted_of_isPrefix_round hr).rounds k
  · have hlt := hb n hn
    omega
  · rw [hwaits]
    exact ht.total hleft

/-- Follow `t` in its work on a lock. -/
def runLocking (t : ThreadId) (a : Attempt) :
    List Mark → System → List Move → Option (List Mark × System)
  | ms, s, [] => some (ms, s)
  | ms, s, m :: moves =>
    if (s.phase t).worksOn a then
      (s.move m).bind fun (s', _) => runLocking t a (ms ++ marks t s m s') s' moves
    else none

theorem Locking.run {moves : List Move} {ms' : List Mark} (h : Locking t a s₀ ms s)
    (hr : runLocking t a ms s moves = some (ms', s')) : Locking t a s₀ ms' s' := by
  induction moves generalizing s ms with
  | nil => cases hr; exact h
  | cons m moves ih =>
    unfold runLocking at hr
    split at hr
    · next hl =>
      obtain ⟨⟨s₁, ns⟩, hm, hr⟩ := Option.bind_eq_some_iff.mp hr
      exact ih (h.move hl hm) hr
    · cases hr

/-- The attempt of thread 2 to obtain "a", which thread 1 has. -/
def late : Attempt := { lock := 0, policy := patient, table := some 0 }

/-- Thread 2 waits, its time is over while thread 1 keeps the lock, and it checks once more. -/
def overdue : List Move := List.flatten
  [List.replicate 16 (.act 2), [.tick 100000000, .rouse 2], List.replicate 13 (.act 2)]

theorem attempts_exact_overdue : ∃ s₀ ns ms s s' notes,
    run {} (taken ++ [.call 2 (.obtain 0 "a"), .act 2]) = some (s₀, ns) ∧
    Locking 2 late s₀ ms s ∧ ms = rounds 1 ++ [.check, .pass] ∧ (s.phase 2).worksOn late ∧
    s.act 2 = some (s', notes) ∧ .returned (.refused (.attemptsExceeded "a" 2)) ∈ notes ∧
    Followed ms ∧ Vetted ms ∧ ms.count .wait ≤ 2 - 1 ∧
    late.Explains ms (.attemptsExceeded "a" 2) := by
  have hx : ∃ s₀ ns, run {} (taken ++ [.call 2 (.obtain 0 "a"), .act 2]) = some (s₀, ns) ∧
      s₀.Reached ∧ s₀.phase 2 = .tryTake late ∧
      ((runLocking 2 late [] s₀ overdue).any fun r =>
        r.1 = rounds 1 ++ [.check, .pass] ∧ (r.2.phase 2).worksOn late ∧
          (r.2.act 2).any fun r => .returned (.refused (.attemptsExceeded "a" 2)) ∈ r.2) = true :=
    Reached.exists_of_run (by decide +kernel)
  obtain ⟨s₀, ns, hr, -, hp, hany⟩ := hx
  obtain ⟨⟨ms, s⟩, hrun, hdec⟩ := (Option.any_eq_true _ _).mp hany
  obtain ⟨hms, hl, hact⟩ := of_decide_eq_true hdec
  obtain ⟨⟨s', notes⟩, hact, ho⟩ := (Option.any_eq_true _ _).mp hact
  have hlocking : Locking 2 late s₀ ms s := (Locking.start hp).run hrun
  obtain ⟨hf, hv, hb, -, he⟩ := Locking.attempts_exact hlocking
  exact ⟨s₀, ns, ms, s, s', notes, hr, hlocking, hms, hl, hact, of_decide_eq_true ho, hf, hv,
    hb 2 rfl, he s' notes _ hl hact (of_decide_eq_true ho)⟩

end System

end KeyedLocks
