import KeyedLocks.Proofs.Actions
import KeyedLocks.Proofs.Session

/-!
# When calls answer

A call answers once, with its last action: `Phase.next_tells` says of every action that it answers
and leaves the thread idle, or does neither.
-/

namespace KeyedLocks

/-- What a note answers. -/
def Note.outcome? : Note → Option Outcome
  | .returned o => some o
  | .called _ | .event _ => none

namespace Step

/-- What an action answers. -/
def answers (st : Step) : List Outcome := st.notes.filterMap Note.outcome?

/-- An action answers and ends the call, or it does neither. -/
def Tells (st : Step) : Prop :=
  (st.phase = .idle ∧ ∃ o, st.answers = [o]) ∨ (st.phase ≠ .idle ∧ st.answers = [])

theorem mem_answers {st : Step} {o : Outcome} : o ∈ st.answers ↔ .returned o ∈ st.notes := by
  rw [answers, List.mem_filterMap]
  constructor
  · rintro ⟨n, hn, ho⟩
    cases n with
    | returned => cases ho; exact hn
    | called | event => cases ho
  · exact fun h => ⟨_, h, rfl⟩

theorem Tells.idle_of_returned {st : Step} {o : Outcome} (h : st.Tells)
    (ho : .returned o ∈ st.notes) : st.phase = .idle := by
  rcases h with ⟨hi, -⟩ | ⟨-, hnil⟩
  · exact hi
  · have hmem := mem_answers.mpr ho
    rw [hnil] at hmem
    cases hmem

theorem tells_finish (m : Memory) (o : Outcome) : (finish m o).Tells := .inl ⟨rfl, o, rfl⟩

theorem tells_moveTo (m : Memory) {p : Phase} (hp : p ≠ .idle) : (moveTo m p).Tells :=
  .inr ⟨hp, rfl⟩

theorem Tells.emit {st : Step} (h : st.Tells) (e : Event) : (st.emit e).Tells := h

theorem tells_emit (m : Memory) (e : Event) {p : Phase} (hp : p ≠ .idle) :
    ((moveTo m p).emit e).Tells := (tells_moveTo m hp).emit e

theorem Tells.answers_of_idle {st : Step} (h : st.Tells) (hi : st.phase = .idle) :
    ∃ o, st.answers = [o] :=
  h.elim And.right fun h => absurd hi h.1

theorem Tells.answers_eq_nil {st : Step} (h : st.Tells) (hi : st.phase ≠ .idle) :
    st.answers = [] :=
  h.elim (fun h => absurd h.1 hi) And.right

end Step

section
variable {me : ThreadId} {now : Nat} {m : Memory} {p : Phase} {st : Step}

theorem Errand.judge_tells {e : Errand} (v : Verdict) : (e.judge m v).Tells := by
  cases v with
  | more => exact Step.tells_moveTo _ nofun
  | passed =>
    cases e with
    | attempt => exact Step.tells_moveTo _ nofun
    | plain => exact Step.tells_finish ..
  | cycle => exact (Step.tells_finish ..).emit _

theorem Errand.conclude_tells {e : Errand} (r : WaitResult) : (e.conclude m r).Tells := by
  cases e with
  | attempt a =>
    cases r with
    | acquired | timedOut => exact Step.tells_moveTo _ nofun
    | interrupted => exact (Step.tells_finish ..).emit _
  | plain => exact Step.tells_finish ..

/-- **A call answers once, when it is over.** -/
theorem Phase.next_tells (h : p.next me now m = some st) : st.Tells := by
  cases next_acts h with
  | acquire | heed | timeOut | grab => exact Errand.conclude_tells _
  | queueFull | spent | cycle | refuseGuard | unprobeFails | requested | makeUnlimited =>
    exact (Step.tells_finish ..).emit _
  | create | spend | backOutFails | remove => exact Step.tells_emit _ _ nofun
  | grant | live | closed | clear | refuse | yield | unprobe | disposed | give | notHeld | notOwner
  | given | tried | triedInVain | cleared | woken | closeRaw | makeTable | makeLock | retain
  | forgo => exact Step.tells_finish ..
  | _ => exact Step.tells_moveTo _ nofun

/-! ## What answers bring -/

/-- The name an answer brings. -/
def Outcome.gain? : Outcome → Option TableId
  | .obtained h => some h.table
  | .tableMade t => some t
  | _ => none

/-- The hold an answer grants. -/
def Outcome.grant? (me : ThreadId) (m : Memory) : Outcome → Option Deal
  | .obtained h => some ⟨me, h, (m.lock h.lock).identifier, true⟩
  | _ => none

theorem Phase.gains_eq (hp : ∀ t, p ≠ .acting (.retain t)) (st : Step) :
    p.gains st.notes = st.answers.filterMap Outcome.gain? := by
  unfold gains
  split
  · next t => exact absurd rfl (hp t)
  · rw [Step.answers, List.filterMap_filterMap]
    congr 1
    funext n
    cases n with
    | returned o => cases o <;> rfl
    | called | event => rfl

theorem Phase.deals_eq (hp : ∀ g who, p ≠ .releasing g who .unlock) (st : Step) :
    p.deals me m st.phase st.notes = st.answers.filterMap (Outcome.grant? me m) := by
  unfold deals
  split
  · next g who => exact absurd rfl (hp g who)
  · rw [Step.answers, List.filterMap_filterMap]
    congr 1
    funext n
    cases n with
    | returned o => cases o <;> rfl
    | called | event => rfl

end

end KeyedLocks
