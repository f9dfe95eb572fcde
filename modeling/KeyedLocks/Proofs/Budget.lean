import KeyedLocks.Proofs.Path
import KeyedLocks.Proofs.Policies

/-!
# The budget of attempts

A policy with `n` attempts lets an acquisition wait `n - 1` times for a lock: the first attempt does
not wait. The count begins anew with each lock. So if the lock turns out to be closed once the
thread has it, and the thread looks its identifier up again, it may wait `n - 1` times more
(`System.waits_le`), and a call can wait longer than its policy says (`System.waits_exceed`).

`Phase.Affords` is the number of waits that are left for the lock at hand: each wait takes one from
it, and only a closed lock brings it back to `n - 1` (`Phase.Path.affords`).
-/

namespace KeyedLocks

/-- The next action of the thread begins a wait. -/
def Phase.beginsWait : Phase → Bool
  | .waiting _ _ .enter => true
  | _ => false

/-- The lock at hand was closed, and the next action of the thread gives it up. -/
def Phase.discards : Phase → Bool
  | .discard _ => true
  | _ => false

/-- In a call with `n` attempts on a table, `k` waits are left for the lock at hand. -/
def Phase.Affords (n k : Nat) : Phase → Prop
  | .lookUp .. | .insert .. => k = n - 1
  | .tryTake a | .readQueue a => a.policy.attempts = some n ∧ k = n - 1
  | .waiting (.attempt _ left) _ .enter => left.map (· + 1) = some k
  | .checking (.attempt _ left) _ | .spend _ left | .waiting (.attempt _ left) _ _ => left = some k
  | .readClosed _ | .backOut _ | .notifyBackOut _ | .discard _ => k = 0
  | _ => False

theorem Phase.affords_waiting {n k : Nat} {a : Attempt} {left d : Option Nat} {s : WaitStage}
    (hs : s ≠ .enter) : (Phase.waiting (.attempt a left) d s).Affords n k ↔ left = some k := by
  cases s with
  | enter => exact absurd rfl hs
  | checkFlag | doze | asleep => exact Iff.rfl

/-- One action further, the waits left and the wait it may have begun are no more than were left
before, unless a closed lock is given up. -/
theorem Phase.Path.affords {me : ThreadId} {m m' : Memory} {p p' : Phase} {table : TableId}
    {i : String} {n k : Nat} (h : p.Path me m m' p') (hp : (Call.obtain table i).Pursues p)
    (hn : (m.table table).policy.attempts = some n) (hk : p.Affords n k) :
    ∃ k', p'.Affords n k' ∧ p.beginsWait.toNat + k' ≤ k + (n - 1) * p.discards.toNat := by
  have hquiet {k' : Nat} (hb : p.beginsWait = false) (hle : k' ≤ k) :
      p.beginsWait.toNat + k' ≤ k + (n - 1) * p.discards.toNat := by
    rw [hb, Bool.toNat_false]
    omega
  cases h with
  | @found _ table' i' l _ hp' =>
    obtain rfl : table' = table := by
      rcases hp' with rfl | rfl <;> rcases hp with ⟨j, h | h⟩ | ⟨a, h, -⟩ <;> cases h <;> rfl
    rcases hp' with rfl | rfl <;> exact ⟨k, ⟨hn, hk⟩, hquiet rfl (Nat.le_refl k)⟩
  | absent => exact ⟨k, hk, hquiet rfl (Nat.le_refl k)⟩
  | @create table' i' =>
    obtain rfl : table' = table := by
      rcases hp with ⟨j, h | h⟩ | ⟨a, h, -⟩ <;> cases h; rfl
    exact ⟨k, ⟨hn, hk⟩, hquiet rfl (Nat.le_refl k)⟩
  | take hp' =>
    refine ⟨0, rfl, ?_⟩
    rcases hp' with rfl | ⟨left, d, s, rfl⟩
    · exact hquiet rfl (Nat.zero_le k)
    -- A wait that gets the lock at once is a wait as well.
    · cases s with
      | enter =>
        obtain ⟨j, -, rfl⟩ := Option.map_eq_some_iff.mp hk
        rw [beginsWait, Bool.toNat_true]
        omega
      | checkFlag | doze | asleep => exact hquiet rfl (Nat.zero_le k)
  | miss => exact ⟨k, hk, hquiet rfl (Nat.le_refl k)⟩
  | @room _ a =>
    refine ⟨n - 1, ?_, hquiet rfl (Nat.le_of_eq hk.2.symm)⟩
    show a.policy.attempts.map (· - 1) = some (n - 1)
    rw [hk.1, Option.map_some]
  | check | pass | timeOut => exact ⟨k, hk, hquiet rfl (Nat.le_refl k)⟩
  | @spend _ a left d hl =>
    obtain rfl : left = some k := hk
    refine ⟨k, ?_, hquiet rfl (Nat.le_refl k)⟩
    have hpos : k ≠ 0 := fun h0 => hl (by rw [h0])
    show ((some k).map (· - 1)).map (· + 1) = some k
    rw [Option.map_some, Option.map_some, Nat.sub_add_cancel (Nat.pos_of_ne_zero hpos)]
  | @wait _ a left d s s' hs' =>
    cases s with
    | enter =>
      obtain ⟨j, hj, rfl⟩ := Option.map_eq_some_iff.mp hk
      refine ⟨j, (affords_waiting hs').mpr hj, ?_⟩
      rw [beginsWait, Bool.toNat_true]
      omega
    | checkFlag | doze | asleep =>
      exact ⟨k, (affords_waiting hs').mpr hk, hquiet rfl (Nat.le_refl k)⟩
  | shut | backedOut => exact ⟨0, rfl, hquiet rfl (Nat.zero_le k)⟩
  | backOut hp' =>
    refine ⟨0, ?_, hquiet rfl (Nat.zero_le k)⟩
    rcases hp' with rfl | rfl <;> rfl
  | discard =>
    refine ⟨n - 1, rfl, ?_⟩
    show 0 + (n - 1) ≤ k + (n - 1) * 1
    omega

namespace System

variable {s s' s₀ s₁ s₂ : System} {t : ThreadId} {table : TableId} {i : String} {n k : Nat}
  {ms : List Move}

/-- How many of the moves are actions of `t` from a phase with `q`. -/
def tally (t : ThreadId) (q : Phase → Bool) : System → List Move → Nat
  | _, [] => 0
  | s, m :: ms =>
    match s.move m with
    | none => 0
    | some (s', _) => (if m = .act t then (q (s.phase t)).toNat else 0) + tally t q s' ms

theorem tally_cons {q : Phase → Bool} {m : Move} {ns : List (ThreadId × Note)}
    (hm : s.move m = some (s', ns)) : tally t q s (m :: ms) =
      (if m = .act t then (q (s.phase t)).toNat else 0) + tally t q s' ms := by
  rw [tally, hm]

/-- As long as a thread is at its call, it has begun no more waits than it could afford and closed
locks brought it. -/
theorem tally_le (hp : (Call.obtain table i).Pursues (s.phase t))
    (hk : (s.phase t).Affords n k) (hn : (s.memory.table table).policy.attempts = some n)
    (hr : runBusy t s ms = some s') :
    s.tally t Phase.beginsWait ms ≤ k + (n - 1) * s.tally t Phase.discards ms := by
  induction ms generalizing s k with
  | nil => exact Nat.zero_le _
  | cons m ms ih =>
    obtain ⟨⟨s₁, ns⟩, hm, hr⟩ := Option.bind_eq_some_iff.mp hr
    dsimp only at hr
    split at hr
    · cases hr
    next hi =>
    have hmoved : s.Moved m s₁ := moved hm
    have hn₁ : (s₁.memory.table table).policy.attempts = some n := by
      rw [(upholds_of_moved hmoved).policy (Memory.lt_fresh_of_attempts hn)]
      exact hn
    rw [tally_cons hm, tally_cons hm]
    by_cases hact : m = .act t
    · subst hact
      rw [if_pos rfl, if_pos rfl]
      cases hmoved with
      | @act _ st hst =>
        rw [phase_after] at hi
        have hp₁ : (Call.obtain table i).Pursues st.phase :=
          ((hp.next hst).resolve_right fun h => hi h.1).1
        have hpath := Phase.next_path hst hp₁.pursues
        obtain ⟨k', hk', hle⟩ := hpath.affords hp hn hk
        rw [← phase_after s t st] at hp₁ hk'
        have hrest := ih hp₁ hk' hn₁ hr
        rw [Nat.mul_add]
        omega
    · rw [if_neg hact, if_neg hact, Nat.zero_add, Nat.zero_add]
      have hphase : s₁.phase t = s.phase t := phase_of_moved hmoved hp.ne_idle hact
      rw [← hphase] at hp hk
      exact ih hp hk hn₁ hr

/-- **The budget is one for each lock.** A call on a table whose policy has `n` attempts waits
`n - 1` times at most for each of the locks it works on: for the first, and for each one that takes
the place of a closed one. -/
theorem waits_le (hn : (s₀.memory.table table).policy.attempts = some n)
    (hc : s₀.call t (.obtain table i) = some s₁) (hr : runBusy t s₁ ms = some s₂) :
    s₁.tally t Phase.beginsWait ms ≤ (n - 1) * (s₁.tally t Phase.discards ms + 1) := by
  have hn₁ : (s₁.memory.table table).policy.attempts = some n := by
    rw [(upholds_of_moved (moved (move_of_call hc))).policy (Memory.lt_fresh_of_attempts hn)]
    exact hn
  have hphase : s₁.phase t = .lookUp table i := phase_of_call hc
  have hp : (Call.obtain table i).Pursues (s₁.phase t) := by
    rw [hphase]
    exact .inl ⟨i, .inl rfl⟩
  have hk : (s₁.phase t).Affords n (n - 1) := by
    rw [hphase]
    rfl
  have hle := tally_le hp hk hn₁ hr
  rw [Nat.mul_add]
  omega

/-- Two attempts, so that one wait is what the policy is for. -/
def patient : Policy :=
  { Policy.unbounded with attempts := some 2, attempts_valid := by simp [UInt32.size] }

/-- Thread 1 has "a". -/
def taken : List Move := List.flatten
  [[.call 0 (.act (.makeTable patient false)), .act 0, .call 1 (.obtain 0 "a")],
    List.replicate 4 (.act 1)]

/-- Thread 2 waits for "a". Thread 1 gives it back and disposes of the lock, and thread 3 gets a new
one before thread 2 has the old one. Thread 2 finds that closed, and waits for the new one. -/
def relapse : List Move := List.flatten
  [List.replicate 17 (.act 2), [.call 1 (.release ⟨0, 0⟩)], List.replicate 6 (.act 1),
    [.call 3 (.obtain 0 "a")], List.replicate 4 (.act 3), List.replicate 2 (.act 1),
    List.replicate 20 (.act 2)]

theorem waits_le_relapse : ∃ s₀ ns s₁ s₂, run {} taken = some (s₀, ns) ∧
    (s₀.memory.table 0).policy.attempts = some 2 ∧ s₀.call 2 (.obtain 0 "a") = some s₁ ∧
    runBusy 2 s₁ relapse = some s₂ ∧ s₁.tally 2 Phase.discards relapse = 1 ∧
    s₁.tally 2 Phase.beginsWait relapse ≤ (2 - 1) * (s₁.tally 2 Phase.discards relapse + 1) := by
  have hx : ∃ s₀ ns, run {} taken = some (s₀, ns) ∧ s₀.Reached ∧
      (s₀.memory.table 0).policy.attempts = some 2 ∧
      ((s₀.call 2 (.obtain 0 "a")).any fun s₁ => (runBusy 2 s₁ relapse).isSome ∧
        s₁.tally 2 Phase.discards relapse = 1) = true :=
    Reached.exists_of_run (by decide +kernel)
  obtain ⟨s₀, ns, hr, -, hn, hany⟩ := hx
  obtain ⟨s₁, hc, hdec⟩ := (Option.any_eq_true _ _).mp hany
  obtain ⟨hb, hd⟩ := of_decide_eq_true hdec
  obtain ⟨s₂, hb⟩ := Option.isSome_iff_exists.mp hb
  exact ⟨s₀, ns, s₁, s₂, hr, hn, hc, hb, hd, waits_le hn hc hb⟩

/-- **A call can wait more often than its policy says**: two attempts stand for one wait, and this
call has begun two, while users did no more than they may. -/
theorem waits_exceed : ∃ x s₁, Session.run Session.Allowed {} taken = some x ∧
    (x.memory.table 0).policy.attempts = some 2 ∧ x.system.call 2 (.obtain 0 "a") = some s₁ ∧
    (Session.run Session.Allowed x (.call 2 (.obtain 0 "a") :: relapse)).isSome ∧
    (runBusy 2 s₁ relapse).isSome ∧ 2 - 1 < s₁.tally 2 Phase.beginsWait relapse := by
  have hx : ∃ x, Session.run Session.Allowed {} taken = some x ∧ x.Reachable ∧
      (x.memory.table 0).policy.attempts = some 2 ∧
      (Session.run Session.Allowed x (.call 2 (.obtain 0 "a") :: relapse)).isSome ∧
      ((x.system.call 2 (.obtain 0 "a")).any fun s₁ => (runBusy 2 s₁ relapse).isSome ∧
        2 - 1 < s₁.tally 2 Phase.beginsWait relapse) = true :=
    Session.exists_of_run (by decide +kernel)
  obtain ⟨x, hr, -, hn, hs, hany⟩ := hx
  obtain ⟨s₁, hc, hdec⟩ := (Option.any_eq_true _ _).mp hany
  obtain ⟨hb, hlt⟩ := of_decide_eq_true hdec
  exact ⟨x, s₁, hr, hn, hc, hs, hb, hlt⟩

end System

end KeyedLocks
