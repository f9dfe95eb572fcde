import KeyedLocks.Proofs.Flags
import KeyedLocks.Proofs.Path

/-!
# Where calls fail

`Phase.Refusal me m p o` says of each failure from which phase it comes and what `me` has found in
the memory there: a queue at its limit, no attempt left, a flag, a cycle, or no hold to give back.
`Phase.next_refusal` says that no call fails elsewhere.
-/

namespace KeyedLocks

/-- The call has failed: with an error, or a wait for a lock by itself was interrupted. -/
def Outcome.isFailure : Outcome → Bool
  | .refused _ | .waited .interrupted => true
  | _ => false

/-- Where an action of `me` may end a call with a failure. -/
inductive Phase.Refusal (me : ThreadId) (m : Memory) : Phase → Outcome → Prop where
  | queueFull {a : Attempt} {k : Nat} : a.policy.queueLimit = some k →
      k ≤ (m.lock a.lock).mutex.queueLength → Refusal me m (.readQueue a)
        (.refused (.tooManyQueued (a.identifier m) (m.lock a.lock).mutex.queueLength k))
  | spent {a : Attempt} : Refusal me m (.spend a (some 0))
      (.refused (.attemptsExceeded (a.identifier m) (a.policy.attempts.getD 0)))
  | interrupted {a : Attempt} {left d : Option Nat} {i : String} : m.isInterrupted me →
      Refusal me m (.waiting (.attempt a left) d .checkFlag) (.refused (.interrupted i))
  | woken {l : LockId} {d : Option Nat} : m.isInterrupted me →
      Refusal me m (.waiting (.plain l) d .checkFlag) (.waited .interrupted)
  | deadlock {e : Errand} {i : String} :
      Refusal me m (.checking e .report) (.refused (.deadlock i))
  | unreleased {g : Handle} {who : Releaser} {i : String} :
      Refusal me m (.releasing g who .unlock) (.refused (.notHeld i))
  | unlocked {l : LockId} {i : String} : Refusal me m (.unlocking l true) (.refused (.notHeld i))

section
variable {me : ThreadId} {now : Nat} {m m' : Memory} {p : Phase} {st : Step} {o : Outcome}
  {a : Attempt} {e : Errand}

theorem Step.eq_of_returned {o' : Outcome} (h : .returned o ∈ (Step.finish m' o').notes) :
    o = o' := by
  cases List.mem_singleton.mp h
  rfl

theorem Errand.not_failure_of_conclude (r : WaitResult) (hr : r ≠ .interrupted)
    (ho : .returned o ∈ (e.conclude m' r).notes) : o.isFailure = false := by
  cases r with
  | interrupted => exact absurd rfl hr
  | acquired | timedOut =>
    cases e with
    | attempt => cases ho
    | plain => rw [Step.eq_of_returned ho]; rfl

/-- **No call fails elsewhere.** -/
theorem Phase.next_refusal (h : p.next me now m = some st) (ho : .returned o ∈ st.notes)
    (hf : o.isFailure) : p.Refusal me m o := by
  have hnot (hn : o.isFailure = false) : p.Refusal me m o := by
    rw [hn] at hf
    cases hf
  cases next_acts h with
  | queueFull _ hq =>
    obtain ⟨k, hk, hle⟩ := (Option.any_eq_true _ _).mp hq
    rw [Step.eq_of_returned (Step.returned_of_emit ho), hk]
    exact .queueFull hk (of_decide_eq_true hle)
  | spent => rw [Step.eq_of_returned (Step.returned_of_emit ho)]; exact .spent
  | cycle => rw [Step.eq_of_returned (Step.returned_of_emit ho)]; exact .deadlock
  | @heed e _ hi =>
    cases e with
    | attempt => rw [Step.eq_of_returned (Step.returned_of_emit ho)]; exact .interrupted hi
    | plain => rw [Step.eq_of_returned ho]; exact .woken hi
  | acquire | timeOut | grab =>
    exact hnot (Errand.not_failure_of_conclude _ (by decide) ho)
  | refuse => rw [Step.eq_of_returned ho]; exact .unreleased
  | notHeld => rw [Step.eq_of_returned ho]; exact .unlocked
  -- The answers of other calls are no failures, and all other actions give none.
  | refuseGuard | unprobeFails | requested | makeUnlimited =>
    exact hnot (by rw [Step.eq_of_returned (Step.returned_of_emit ho)]; rfl)
  | grant | live | closed | clear | yield | unprobe | disposed | give | notOwner | given | tried
  | triedInVain | cleared | woken | closeRaw | makeTable | makeLock | retain | forgo =>
    exact hnot (by rw [Step.eq_of_returned ho]; rfl)
  | create | spend | backOutFails | remove => cases Step.returned_of_emit ho
  | _ => cases ho

end

end KeyedLocks
