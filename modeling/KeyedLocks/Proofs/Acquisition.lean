import KeyedLocks.Proofs.Disposal
import KeyedLocks.Proofs.Runs

/-!
# Acquisitions: one hold or none

An acquisition may look up several locks, take closed ones and give them back, and leave at several
depths. At each of its phases the thread has the holds it began with, and besides them at most one
that its stake says it has in its hands (`System.During.acquires`); others cannot change that. An
acquisition that fails does so from a stake with nothing in hand, and one that succeeds is left with
the hold it took (`Phase.Ends`). So a failure leaves all counts of holds as they were, and a success
adds one to one of them (`System.holdsOf_of_returns`).
-/

namespace KeyedLocks

/-! ## The holds of one thread -/

/-- The thread may be on its way to a lock. -/
def Stake.acquiring : Stake → Bool
  | .none | .seek _ | .wait _ | .taken _ | .back _ | .discard _ => true
  | .raw | .release .. => false

namespace Shift

variable {me : ThreadId} {H H' : Holdings} {p p' : Stake} {ds : List Deal}

/-- On its way to a lock, a thread takes a hold into its hands or gives that one back. -/
theorem held_self (h : Shift me H p ds H' p') (hp : p.acquiring) (hf : H.held H.fresh me = 0)
    (hb : ∀ a, p = .back a → 0 < H.held a.lock me) (ht : ∀ a, p = .taken a → p' ≠ .none)
    (l : LockId) : H'.held l me + p.inFlight l = H.held l me + p'.inFlight l := by
  cases h with
  | create => rw [Holdings.held_create hf]; rfl
  | @take _ a hpa =>
    have hz : p.inFlight l = 0 := by rcases hpa with rfl | rfl <;> rfl
    rw [hz, Stake.inFlight]
    by_cases hl : a.lock = l
    · subst hl
      rw [H.held_add_self, if_pos rfl]
    · rw [H.held_add_of_ne fun h => hl h.1.symm, if_neg hl]
  | @backOut a hpos =>
    show _ + (if a.lock = l then 1 else 0) = H.held l me
    by_cases hl : a.lock = l
    · subst hl
      rw [H.held_sub_self, if_pos rfl]
      exact Nat.sub_add_cancel hpos
    · rw [H.held_sub_of_ne fun h => hl h.1.symm, if_neg hl]
      rfl
  | @backOutFails a hz => exact absurd hz (Nat.ne_of_gt (hb a rfl))
  | grant | live => exact absurd rfl (ht _ rfl)
  | discard => rw [Holdings.held_remove]; rfl
  | rest | find | miss | stay | giveUp | shut | backedOut | closed => rfl
  | _ => cases hp

theorem held_of_taken {a : Attempt} (h : Shift me H (.taken a) ds H' p') : H' = H := by
  cases h with
  | take hp => rcases hp with hp | hp <;> cases hp
  | grant | live | shut => rfl

end Shift

/-! ## The phases of an acquisition -/

/-- The attempt a thread is at, if it is at one. -/
def Phase.attempt? : Phase → Option Attempt
  | .tryTake a | .readQueue a | .checking (.attempt a _) _ | .spend a _
  | .waiting (.attempt a _) _ _ | .readClosed a | .backOut a | .notifyBackOut a | .discard a =>
    some a
  | _ => none

/-- The acquisitions among the calls. -/
def Call.acquires : Call → Bool
  | .obtain .. | .take .. => true
  | _ => false

/-- The phases an acquisition goes through. -/
def Call.Pursues : Call → Phase → Prop
  | .obtain table _, p =>
    (∃ identifier, p = .lookUp table identifier ∨ p = .insert table identifier) ∨
      ∃ a, p.attempt? = some a ∧ a.table = some table
  | .take l policy, p => p.attempt? = some { lock := l, policy, table := none }
  | _, _ => False

theorem Call.begin_pursues {c : Call} (hc : c.acquires) (now : Nat) (m : Memory) :
    c.Pursues (c.begin now m).2 ∧ ∀ l, (c.begin now m).2.stake.inFlight l = 0 := by
  cases c with
  | obtain table identifier => exact ⟨.inl ⟨identifier, .inl rfl⟩, fun _ => rfl⟩
  | take => exact ⟨rfl, fun _ => rfl⟩
  | _ => cases hc

/-- What an acquisition may return, and from which phase. -/
inductive Phase.Ends : Phase → Outcome → Prop where
  | refuse {p : Phase} {a : Attempt} {e : LockError} : p.stake = .wait a → Ends p (.refused e)
  | grant {a : Attempt} {table : TableId} : a.table = some table →
      Ends (.readClosed a) (.obtained ⟨table, a.lock⟩)
  | live {a : Attempt} : a.table = none → Ends (.readClosed a) .live
  | closed {a : Attempt} : a.table = none → Ends (.discard a) .closed

/-- What an action of an attempt leads to. -/
inductive Attempt.Course (a : Attempt) (p : Phase) (st : Step) : Prop where
  | on : st.phase.attempt? = some a → (∀ o, .returned o ∉ st.notes) → Course a p st
  | again {table : TableId} {identifier : String} : a.table = some table →
      st.phase = .lookUp table identifier → (∀ o, .returned o ∉ st.notes) → Course a p st
  | done {o : Outcome} : st.phase = .idle → p.Ends o →
      (∀ o', .returned o' ∈ st.notes → o' = o) → Course a p st

section
variable {me : ThreadId} {now : Nat} {m : Memory} {p : Phase} {st : Step} {a : Attempt}

namespace Attempt

theorem course_on {m' : Memory} {p' : Phase} (hp : p'.attempt? = some a) :
    a.Course p (.moveTo m' p') := .on hp fun _ => List.not_mem_nil

theorem Course.emit (h : a.Course p st) (e : Event) : a.Course p (st.emit e) := by
  cases h with
  | on hp hr => exact .on hp fun o ho => hr o (Step.returned_of_emit ho)
  | again ht hp hr => exact .again ht hp fun o ho => hr o (Step.returned_of_emit ho)
  | done hp he hr => exact .done hp he fun o ho => hr o (Step.returned_of_emit ho)

theorem course_finish {m' : Memory} {o : Outcome} (he : p.Ends o) :
    a.Course p (.finish m' o) :=
  .done rfl he fun _ ho => by cases List.mem_singleton.mp ho; rfl

/-- **Every action of an attempt takes its course.** -/
theorem next_course (hp : p.attempt? = some a) (h : p.next me now m = some st) :
    a.Course p st := by
  cases Phase.next_acts h with
  | @check e | @listTables e | @listed e | @acquire e | @enter e | @drowse e | @timeOut e
  | @sleep e | @grab e | @rise e =>
    cases e with
    | attempt => cases hp; exact course_on rfl
    | plain => cases hp
  | @heed e | @cycle e =>
    cases e with
    | attempt => cases hp; exact (course_finish (.refuse rfl)).emit _
    | plain => cases hp
  | queueFull | spent => cases hp; exact (course_finish (.refuse rfl)).emit _
  | spend | backOutFails => cases hp; exact (course_on rfl).emit _
  | take | miss | room | pass | shut | backOut | backOutLast | backedOut =>
    cases hp
    exact course_on rfl
  | discard ht => cases hp; exact .again ht rfl fun _ => List.not_mem_nil
  | grant _ ht => cases hp; exact course_finish (.grant ht)
  | live _ ht => cases hp; exact course_finish (.live ht)
  | closed ht => cases hp; exact course_finish (.closed ht)
  | _ => cases hp

end Attempt

theorem Call.Pursues.ne_idle {c : Call} (hp : c.Pursues p) : p ≠ .idle := by
  rintro rfl
  cases c with
  | obtain =>
    rcases hp with ⟨identifier, h | h⟩ | ⟨a, h, -⟩ <;> cases h
  | _ => cases hp

/-- What an action of an acquisition leads to: it goes on, or it is over and returns. -/
theorem Call.Pursues.next {c : Call} (hp : c.Pursues p) (h : p.next me now m = some st) :
    c.Pursues st.phase ∧ (∀ o, .returned o ∉ st.notes) ∨
      st.phase = .idle ∧ ∀ o, .returned o ∈ st.notes → p.Ends o := by
  have hattempt {a : Attempt} (ha : p.attempt? = some a)
      (hon : st.phase.attempt? = some a → c.Pursues st.phase)
      (hagain : ∀ table identifier, a.table = some table →
        st.phase = .lookUp table identifier → c.Pursues st.phase) :
      c.Pursues st.phase ∧ (∀ o, .returned o ∉ st.notes) ∨
        st.phase = .idle ∧ ∀ o, .returned o ∈ st.notes → p.Ends o := by
    cases Attempt.next_course ha h with
    | on hs hn => exact .inl ⟨hon hs, hn⟩
    | again ht hs hn => exact .inl ⟨hagain _ _ ht hs, hn⟩
    | done hi he hn => exact .inr ⟨hi, fun o ho => hn o ho ▸ he⟩
  cases c with
  | obtain table i =>
    rcases hp with ⟨identifier, rfl | rfl⟩ | ⟨a, ha, ht⟩
    · cases Phase.next_acts h with
      | found => exact .inl ⟨.inr ⟨_, rfl, rfl⟩, fun _ => List.not_mem_nil⟩
      | absent => exact .inl ⟨.inl ⟨_, .inr rfl⟩, fun _ => List.not_mem_nil⟩
    · cases Phase.next_acts h with
      | foundLate => exact .inl ⟨.inr ⟨_, rfl, rfl⟩, fun _ => List.not_mem_nil⟩
      | create =>
        refine .inl ⟨.inr ⟨_, rfl, rfl⟩, fun o ho => ?_⟩
        cases List.mem_singleton.mp ho
    · refine hattempt ha (fun hs => .inr ⟨a, hs, ht⟩) fun table' identifier ht' hs => ?_
      rw [ht] at ht'
      cases ht'
      exact .inl ⟨identifier, .inl hs⟩
  | take l policy => exact hattempt hp id fun _ _ ht => nomatch ht
  | _ => cases hp

/-- An acquisition returns an error or a handle; one that takes a given lock says how that is. -/
theorem Call.Pursues.ends {c : Call} {o : Outcome} (hp : c.Pursues p) (h : p.Ends o) :
    (∃ e, o = .refused e) ∨ (∃ g, o = .obtained g) ∨
      (∃ l policy, c = .take l policy) ∧ (o = .closed ∨ o = .live) := by
  have htake {a : Attempt} (ha : p.attempt? = some a) (ht : a.table = none) :
      ∃ l policy, c = .take l policy := by
    cases c with
    | obtain =>
      rcases hp with ⟨identifier, rfl | rfl⟩ | ⟨b, hb, hbt⟩
      · cases ha
      · cases ha
      · cases ha.symm.trans hb
        cases ht.symm.trans hbt
    | take l policy => exact ⟨l, policy, rfl⟩
    | _ => cases hp
  cases h with
  | refuse => exact .inl ⟨_, rfl⟩
  | grant => exact .inr (.inl ⟨_, rfl⟩)
  | live ht => exact .inr (.inr ⟨htake rfl ht, .inr rfl⟩)
  | closed ht => exact .inr (.inr ⟨htake rfl ht, .inl rfl⟩)

theorem Phase.acquiring_of_attempt? (h : p.attempt? = some a) : p.stake.acquiring := by
  cases p with
  | tryTake | readQueue | spend | readClosed | backOut | notifyBackOut | discard => rfl
  | checking e | waiting e =>
    cases e with
    | attempt => rfl
    | plain => cases h
  | idle | lookUp | insert | releasing | unlocking | notifying | interrupting | acting => cases h

theorem Call.Pursues.acquiring {c : Call} (hp : c.Pursues p) : p.stake.acquiring := by
  cases c with
  | obtain =>
    rcases hp with ⟨identifier, rfl | rfl⟩ | ⟨a, ha, -⟩
    · rfl
    · rfl
    · exact Phase.acquiring_of_attempt? ha
  | take => exact Phase.acquiring_of_attempt? hp
  | _ => cases hp

theorem Phase.eq_readClosed (h : p.stake = .taken a) : p = .readClosed a := by
  cases p with
  | readClosed b => cases h; rfl
  | checking e | waiting e => cases e <;> cases h
  | acting b => cases b <;> cases h
  | _ => cases h

theorem Phase.next_taken (hp : p.stake = .taken a) (h : p.next me now m = some st)
    (hi : st.phase ≠ .idle) : st.phase.stake = .back a := by
  obtain rfl := Phase.eq_readClosed hp
  cases next_acts h with
  | shut => rfl
  | grant | live => exact absurd rfl hi

end

namespace System

variable {s s' s₀ : System} {t u : ThreadId} {c : Call} {o : Outcome} {l : LockId} {st : Step}

theorem holdsOf_after (hs : s.Reached) (hst : (s.phase t).next t s.now s.memory = some st)
    (hp : (s.phase t).stake.acquiring)
    (hb : ∀ a, (s.phase t).stake = .back a → 0 < s.holdsOf t a.lock)
    (ht : ∀ a, (s.phase t).stake = .taken a → st.phase.stake ≠ .none) (l : LockId) :
    (s.after t st).holdsOf t l + (s.phase t).stake.inFlight l =
      s.holdsOf t l + st.phase.stake.inFlight l := by
  obtain ⟨H, hsh, -, hg⟩ := Phase.next_shifts hs.wf hst
  show st.memory.holdings.held l t + _ = _
  rw [hg.2]
  exact hsh.held_self hp (held_fresh ..) hb ht l

/-- At each point of an acquisition, the thread has what it began with and what it has in hand. -/
theorem During.acquires (hs : s₀.Reached) (hc : c.acquires) (h : During t c s₀ s) :
    c.Pursues (s.phase t) ∧
      ∀ l, s.holdsOf t l = s₀.holdsOf t l + (s.phase t).stake.inFlight l := by
  induction h with
  | call hcall =>
    obtain ⟨hp, hz⟩ := Call.begin_pursues hc s₀.now s₀.memory
    rw [phase_of_call hcall]
    refine ⟨hp, fun l => ?_⟩
    rw [hz]
    exact holdsOf_of_moved hs (moved (move_of_call hcall)) (by rintro ⟨⟩)
  | @move s s' m ns hd hm hi ih =>
    obtain ⟨hp, hheld⟩ := ih
    have hr : s.Reached := hd.reached hs
    have hmoved : s.Moved m s' := moved hm
    by_cases hact : m = .act t
    · subst hact
      cases hmoved with
      | @act _ st hst =>
        rw [phase_after] at hi ⊢
        have hp' : c.Pursues st.phase := by
          rcases hp.next hst with ⟨hp', -⟩ | ⟨hidle, -⟩
          · exact hp'
          · exact absurd hidle hi
        refine ⟨hp', fun l => ?_⟩
        have hback (a : Attempt) (ha : (s.phase t).stake = .back a) : 0 < s.holdsOf t a.lock := by
          rw [hheld, ha, Stake.inFlight, if_pos rfl]
          exact Nat.succ_pos _
        have htaken (a : Attempt) (ha : (s.phase t).stake = .taken a) :
            st.phase.stake ≠ .none := by
          rw [Phase.next_taken ha hst hi]
          rintro ⟨⟩
        have hl := holdsOf_after hr hst hp.acquiring hback htaken l
        have hbefore := hheld l
        omega
    · rw [phase_of_moved hmoved hp.ne_idle hact]
      refine ⟨hp, fun l => ?_⟩
      rw [holdsOf_of_moved hr hmoved hact]
      exact hheld l

/-- Whether the lock is closed is looked at with the hold in hand: no count changes. -/
theorem holdsOf_after_readClosed {a : Attempt} (hs : s.Reached)
    (hst : (s.phase t).next t s.now s.memory = some st) (ha : s.phase t = .readClosed a)
    (l : LockId) : (s.after t st).holdsOf t l = s.holdsOf t l := by
  obtain ⟨H, hsh, -, hg⟩ := Phase.next_shifts hs.wf hst
  rw [ha] at hsh
  show st.memory.holdings.held l t = _
  rw [hg.2, hsh.held_of_taken]
  rfl

/-- **An acquisition gets one hold or none.** If it fails, the thread has on each lock just the
holds it began with, whatever it took and gave back on its way. If it succeeds, it has one more on
the lock it was given, and no other. Either way it is in no queue. Nothing else can come of it. -/
theorem holdsOf_of_returns (hs : s₀.Reached) (hc : c.acquires) (h : Returns t c s₀ o s) :
    (∀ l, t ∉ (s.memory.lock l).mutex.waiters) ∧
    ((∃ e, o = .refused e) ∨ o = .closed → ∀ l, s.holdsOf t l = s₀.holdsOf t l) ∧
    (∀ g, o = .obtained g → s.holdsOf t g.lock = s₀.holdsOf t g.lock + 1 ∧
      ∀ l, l ≠ g.lock → s.holdsOf t l = s₀.holdsOf t l) ∧
    (∀ k policy, c = .take k policy → o = .live → s.holdsOf t k = s₀.holdsOf t k + 1 ∧
      ∀ l, l ≠ k → s.holdsOf t l = s₀.holdsOf t l) ∧
    ((∃ e, o = .refused e) ∨ (∃ g, o = .obtained g) ∨
      (∃ k policy, c = .take k policy) ∧ (o = .closed ∨ o = .live)) := by
  obtain ⟨s₁, notes, hd, hact, ho⟩ := h
  obtain ⟨hp, hheld⟩ := hd.acquires hs hc
  have hr : s₁.Reached := hd.reached hs
  obtain ⟨st, hst, rfl, rfl⟩ := act_eq_some_iff.mp hact
  obtain ⟨hidle, hends⟩ := (hp.next hst).resolve_left fun hn => hn.2 o ho
  have hunqueued : ∀ l, t ∉ ((s₁.after t st).memory.lock l).mutex.waiters := by
    refine (hr.move (move_of_act hact)).queues.not_mem ?_
    show ((s₁.after t st).phase t).queue? = none
    rw [phase_after, hidle]
    rfl
  -- A thread with nothing in hand has what it began with.
  have hempty (hz : ∀ l, (s₁.phase t).stake.inFlight l = 0)
      (hb : ∀ a, (s₁.phase t).stake ≠ .back a) (ht : ∀ a, (s₁.phase t).stake ≠ .taken a)
      (l : LockId) : (s₁.after t st).holdsOf t l = s₀.holdsOf t l := by
    have hl := holdsOf_after hr hst hp.acquiring (fun a h => absurd h (hb a))
      (fun a h => absurd h (ht a)) l
    rw [hz, hidle, hheld, hz] at hl
    exact hl
  -- One with a lock in hand keeps it.
  have hfull {a : Attempt} (ha : s₁.phase t = .readClosed a) :
      (s₁.after t st).holdsOf t a.lock = s₀.holdsOf t a.lock + 1 ∧
        ∀ l, l ≠ a.lock → (s₁.after t st).holdsOf t l = s₀.holdsOf t l := by
    have hl (l : LockId) : (s₁.after t st).holdsOf t l =
        s₀.holdsOf t l + if a.lock = l then 1 else 0 := by
      rw [holdsOf_after_readClosed hr hst ha, hheld, ha]
      rfl
    constructor
    · rw [hl, if_pos rfl]
    · intro l hne
      rw [hl, if_neg hne.symm, Nat.add_zero]
  have hout : (s₁.phase t).Ends o := hends o ho
  have hwhich := hp.ends hout
  refine ⟨hunqueued, ?_⟩
  generalize hph : s₁.phase t = p at hout
  cases hout with
  | refuse hw =>
    rw [hph, hw] at hempty
    exact ⟨fun _ => hempty (fun _ => rfl) (fun _ => nofun) (fun _ => nofun), nofun, nofun, hwhich⟩
  | closed =>
    rw [hph] at hempty
    exact ⟨fun _ => hempty (fun _ => rfl) (fun _ => nofun) (fun _ => nofun), nofun, nofun, hwhich⟩
  | grant =>
    refine ⟨nofun, ?_, nofun, hwhich⟩
    rintro _ ⟨⟩
    exact hfull hph
  | live =>
    refine ⟨nofun, nofun, ?_, hwhich⟩
    rintro k policy rfl -
    rw [hph] at hp
    cases hp
    exact hfull hph

/-- One attempt, so that no thread waits. -/
def hasty : Policy :=
  { Policy.unbounded with attempts := some 1, attempts_valid := by simp [UInt32.size] }

/-- Thread 1 has "a", thread 2 has "b". -/
def paired : List Move := List.flatten
  [[.call 0 (.act (.makeTable hasty false)), .act 0, .call 1 (.obtain 0 "a")],
    List.replicate 4 (.act 1), [.call 2 (.obtain 0 "b")], List.replicate 4 (.act 2)]

/-- Thread 2 finds the lock of "a", takes it when thread 1 has closed it, gives it back, and finds
that thread 3 has the new one. -/
def thwarted : List Move := List.flatten
  [[.act 2, .call 1 (.release ⟨0, 0⟩)], List.replicate 8 (.act 1), List.replicate 5 (.act 2),
    [.call 3 (.obtain 0 "a")], List.replicate 4 (.act 3), List.replicate 15 (.act 2)]

theorem holdsOf_of_returns_paired : ∃ s₀ ns, run {} paired = some (s₀, ns) ∧
    s₀.holdsOf 2 1 = 1 ∧
    (∃ s notes, runCall 2 (.obtain 0 "a") s₀ thwarted = some (s, notes) ∧
      .returned (.refused (.attemptsExceeded "a" 1)) ∈ notes ∧
      (∀ l, 2 ∉ (s.memory.lock l).mutex.waiters) ∧ ∀ l, s.holdsOf 2 l = s₀.holdsOf 2 l) ∧
    ∃ s notes, runCall 2 (.obtain 0 "b") s₀ [.act 2, .act 2] = some (s, notes) ∧
      .returned (.obtained ⟨0, 1⟩) ∈ notes ∧ s.holdsOf 2 1 = s₀.holdsOf 2 1 + 1 ∧
      ∀ l, l ≠ 1 → s.holdsOf 2 l = s₀.holdsOf 2 l := by
  have hx : ∃ s₀ ns, run {} paired = some (s₀, ns) ∧ s₀.Reached ∧ s₀.holdsOf 2 1 = 1 ∧
      ((runCall 2 (.obtain 0 "a") s₀ thwarted).any fun r =>
        .returned (.refused (.attemptsExceeded "a" 1)) ∈ r.2) = true ∧
      ((runCall 2 (.obtain 0 "b") s₀ [.act 2, .act 2]).any fun r =>
        .returned (.obtained ⟨0, 1⟩) ∈ r.2) = true :=
    Reached.exists_of_run (by decide +kernel)
  obtain ⟨s₀, ns, hr, hs, h₁, ha, hb⟩ := hx
  obtain ⟨⟨s, notes⟩, hca, ho⟩ := (Option.any_eq_true _ _).mp ha
  obtain ⟨⟨s', notes'⟩, hcb, ho'⟩ := (Option.any_eq_true _ _).mp hb
  have ho := of_decide_eq_true ho
  have ho' := of_decide_eq_true ho'
  obtain ⟨hq, hfail, -, -⟩ := holdsOf_of_returns hs rfl (returns_of_runCall hca ho)
  obtain ⟨-, -, hgain, -⟩ := holdsOf_of_returns hs rfl (returns_of_runCall hcb ho')
  exact ⟨s₀, ns, hr, h₁, ⟨s, notes, hca, ho, hq, hfail (.inl ⟨_, rfl⟩)⟩,
    s', notes', hcb, ho', hgain _ rfl⟩

end System

end KeyedLocks
