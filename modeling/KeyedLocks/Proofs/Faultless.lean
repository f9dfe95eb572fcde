import KeyedLocks.Proofs.Events
import KeyedLocks.Proofs.Grants
import KeyedLocks.Proofs.Trail

/-!
# Branches that are never taken

Some branches are there for what should not happen: a thread that cannot give back a closed lock or
its probe has but the log to tell, a release takes one from a count that may be zero, and a refusal
names a limit of its policy, or zero if there is none. `System.Faultless` says that a run has gone
through none of them, and `System.faultless` that no run ever does. Nothing is asked of the run, so
threads may also take and close the locks of a table by themselves while others work on them.

What rules a branch out was settled actions before. A thread holds what it has in hand
(`System.Reached.inFlight_le`), so it can give that back. One that is about to close a lock has
counted a single hold there, that of its probe (`System.Reached.holdsOf_of_close`). One that
counts its attempts has a policy with a limit for them (`Phase.Counts`).
-/

namespace KeyedLocks

/-- A thread could not give back what it had taken for itself. -/
def Event.isFault : Event → Bool
  | .closedNotHeld _ | .probeNotHeld _ => true
  | _ => false

section
variable {me : ThreadId} {now : Nat} {m m' : Memory} {p p' : Phase} {st : Step}

theorem Shift.alone_of_close {H H' : Holdings} {q : Stake} {g : Handle} {ds : List Deal}
    (h : Shift me H q ds H' (.release g .close)) : H' = H ∧ H.held g.lock me = 1 := by
  cases h with
  | alone h1 => exact ⟨rfl, h1⟩
  | unlock _ hs => rcases hs with hs | hs <;> cases hs
  | unprobe _ hq | rawRelease _ hq => rcases hq with hq | hq <;> cases hq

/-- A thread that checks or waits counts its attempts just when its policy has a limit for them. -/
def Phase.Counts (p : Phase) : Prop :=
  ∀ a left, p.attempt? = some a → p.left? = some left → left.isSome = a.policy.attempts.isSome

theorem Phase.counts_of_attempt? (h : p.attempt? = none) : p.Counts := by
  intro a left ha
  rw [h] at ha
  cases ha

theorem Phase.counts_of_left? (h : p.left? = none) : p.Counts := by
  intro a left _ hl
  rw [h] at hl
  cases hl

theorem Phase.Path.counts (h : p.Path me m m' p') (hp : p.Counts) : p'.Counts := by
  cases h with
  | found | create | take | miss | shut | backedOut => exact counts_of_left? rfl
  | absent | discard => exact counts_of_attempt? rfl
  | backOut hq => rcases hq with rfl | rfl <;> exact counts_of_left? rfl
  | room =>
    rintro a left ⟨⟩ ⟨⟩
    exact Option.isSome_map
  | spend =>
    rintro a left ⟨⟩ ⟨⟩
    rw [Option.isSome_map]
    exact hp _ _ rfl rfl
  | check | pass | wait | timeOut => exact hp

theorem Phase.counts_begin (c : Call) (now : Nat) (m : Memory) : (c.begin now m).2.Counts := by
  cases c with
  | take => exact counts_of_left? rfl
  | _ => exact counts_of_attempt? rfl

theorem Phase.Counts.next (hp : p.Counts) (h : p.next me now m = some st) : st.phase.Counts := by
  rcases ha : st.phase.attempt? with _ | a
  · exact counts_of_attempt? ha
  · exact (next_path h (pursues_of_attempt? ha)).counts hp

end

namespace System

variable {s s' : System} {t : ThreadId} {l : LockId} {st : Step} {ms : List Move}
  {ns : List (ThreadId × Note)}

/-! ## What was settled before -/

theorem Reached.counts_attempts (hs : s.Reached) (t : ThreadId) : (s.phase t).Counts := by
  refine hs.induct (p := fun s => (s.phase t).Counts) (Phase.counts_of_attempt? rfl) ?_
  intro s s' m _ hp hm
  by_cases hact : m = .act t
  · subst hact
    cases hm with
    | act hst =>
      rw [phase_after]
      exact hp.next hst
  · rcases hm.phase_eq_or hact with he | ⟨c, -, -, he⟩
    · rw [he]
      exact hp
    · rw [he]
      exact Phase.counts_begin c s.now s.memory

theorem Reached.holdsOf_of_close (hs : s.Reached) {g : Handle} {who : Releaser}
    (hp : s.phase t = .releasing g who .close) : s.holdsOf t g.lock = 1 := by
  refine hs.induct (p := fun s => s.phase t = .releasing g who .close → s.holdsOf t g.lock = 1)
    nofun ?_ hp
  intro s s' m hs ih hm hp'
  by_cases hact : m = .act t
  · subst hact
    cases hm with
    | @act _ st hst =>
      obtain ⟨H, hsh, -, hg⟩ := Phase.next_shifts hs.wf hst
      rw [phase_after] at hp'
      rw [hp'] at hsh
      obtain ⟨rfl, h1⟩ := hsh.alone_of_close
      show st.memory.holdings.held g.lock t = 1
      rw [hg.2]
      exact h1
  · rw [holdsOf_of_moved hs hm hact]
    rcases hm.phase_eq_or hact with he | ⟨c, -, -, he⟩
    · exact ih (he ▸ hp')
    · rw [he] at hp'
      cases c <;> cases hp'

theorem Reached.release?_of_inFlight (hs : s.Reached) (hf : (s.phase t).stake.inFlight l = 1) :
    ∃ x, (s.memory.lock l).mutex.release? t = some x := by
  have hpos : 0 < s.holdsOf t l := Nat.lt_of_lt_of_le (hf ▸ Nat.one_pos) (hs.inFlight_le t l)
  exact ⟨_, Mutex.release?_eq_some_iff.mpr ⟨hs.owner_iff.mpr hpos, rfl⟩⟩

theorem Reached.release?_of_backOut (hs : s.Reached) {a : Attempt} (hp : s.phase t = .backOut a) :
    ∃ x, (s.memory.lock a.lock).mutex.release? t = some x := by
  refine hs.release?_of_inFlight ?_
  rw [hp]
  exact if_pos rfl

theorem Reached.release?_of_unprobe (hs : s.Reached) {g : Handle} {who : Releaser}
    (hp : s.phase t = .releasing g who .unprobe) :
    ∃ x, (s.memory.lock g.lock).mutex.release? t = some x := by
  refine hs.release?_of_inFlight ?_
  rw [hp]
  exact Stake.inFlight_probing rfl g

/-! ## Actions -/

/-- No action reports that a lock could not be given back that the thread has in hand. -/
theorem Reached.isFault_eq_false (hs : s.Reached)
    (hst : (s.phase t).next t s.now s.memory = some st) {e : Event} (he : .event e ∈ st.notes) :
    e.isFault = false := by
  have hlog := Phase.next_logs hst he
  generalize hp : s.phase t = p at hlog
  cases hlog with
  | backOutFails hx =>
    obtain ⟨x, hx'⟩ := hs.release?_of_backOut hp
    rw [hx] at hx'
    cases hx'
  | unprobeFails hx =>
    obtain ⟨x, hx'⟩ := hs.release?_of_unprobe hp
    rw [hx] at hx'
    cases hx'
  | _ => rfl

theorem limit_of_queueFull (hst : (s.phase t).next t s.now s.memory = some st) {i : String}
    {q n : Nat} (ho : .returned (.refused (.tooManyQueued i q n)) ∈ st.notes) :
    ∃ a, s.phase t = .readQueue a ∧ a.policy.queueLimit = some n ∧ 0 < n := by
  have href := Phase.next_refusal hst ho rfl
  generalize s.phase t = p at href
  cases href with
  | queueFull hn => exact ⟨_, rfl, hn, (Policy.queueLimit_valid _ n hn).1⟩

theorem Reached.limit_of_spent (hs : s.Reached)
    (hst : (s.phase t).next t s.now s.memory = some st) {i : String} {n : Nat}
    (ho : .returned (.refused (.attemptsExceeded i n)) ∈ st.notes) :
    ∃ a, s.phase t = .spend a (some 0) ∧ a.policy.attempts = some n ∧ 0 < n := by
  have hcounts := hs.counts_attempts t
  have href := Phase.next_refusal hst ho rfl
  generalize s.phase t = p at href hcounts
  generalize ho' : Outcome.refused _ = o at href
  cases href with
  | @spent a =>
    obtain ⟨k, hk⟩ := Option.isSome_iff_exists.mp (hcounts a (some 0) rfl rfl).symm
    rw [hk] at ho'
    cases ho'
    exact ⟨a, rfl, hk, (a.policy.attempts_valid k hk).1⟩
  | _ => cases ho'

/-! ## Runs -/

/-- What was noted in a run, but for its calls, was noted by an action of what is reached. -/
theorem Steps.note (h : Steps s ms ns s') (hs : s.Reached) {n : Note} (hn : (t, n) ∈ ns)
    (hc : ∀ c, n ≠ .called c) : ∃ (s₁ : System) (st : Step), s₁.Reached ∧
      (s₁.phase t).next t s₁.now s₁.memory = some st ∧ n ∈ st.notes := by
  induction h with
  | nil => cases hn
  | @cons s s₁ s₂ m ms ns₁ ns₂ hm _ ih =>
    rcases List.mem_append.mp hn with hn | hn
    · cases m with
      | call u c =>
        obtain ⟨s₃, -, he⟩ := Option.map_eq_some_iff.mp hm
        cases he
        cases List.mem_singleton.mp hn
        exact absurd rfl (hc c)
      | act u =>
        obtain ⟨⟨s₃, notes⟩, hact, he⟩ := Option.map_eq_some_iff.mp hm
        obtain ⟨st, hst, rfl, rfl⟩ := act_eq_some_iff.mp hact
        cases he
        obtain ⟨n', hn', he⟩ := List.mem_map.mp hn
        cases he
        exact ⟨s, st, hs, hst, hn'⟩
      | rouse u =>
        obtain ⟨s₃, -, he⟩ := Option.map_eq_some_iff.mp hm
        cases he
        cases hn
      | tick d =>
        cases hm
        cases hn
    · exact ih (hs.move hm) hn

/-- Thread `t` is alone with lock `l`: it owns the lock, with one hold that it was not granted, and
nobody was granted a hold that was not given back. -/
structure AloneWith (s : System) (t : ThreadId) (l : LockId) (ms : List Move) : Prop where
  owner : (s.memory.lock l).mutex.owner = some t
  holds : (s.memory.lock l).mutex.holds = 1
  ungranted : ∀ u, granted u l {} ms = 0
  others : ∀ u, u ≠ t → s.holdsOf u l = 0

/-- Where the run `ms` with notes `ns` has led to, no branch was taken that is there for what should
not happen, and none is about to be. -/
structure Faultless (s : System) (ms : List Move) (ns : List (ThreadId × Note)) : Prop where
  /-- Nobody has reported that a closed lock or a probe could not be given back. -/
  silent : ∀ t e, (t, .event e) ∈ ns → e.isFault = false
  /-- What a thread is about to give back, because the lock is closed or was just probed, it has. -/
  backOut : ∀ t a, s.phase t = .backOut a →
    ∃ x, (s.memory.lock a.lock).mutex.release? t = some x
  unprobe : ∀ t g who, s.phase t = .releasing g who .unprobe →
    ∃ x, (s.memory.lock g.lock).mutex.release? t = some x
  /-- Whoever gives a lock back takes one from a count that is not zero. -/
  counted : ∀ t l x, (s.memory.lock l).mutex.release? t = some x →
    x.holds + 1 = (s.memory.lock l).mutex.holds
  closes : ∀ t g who, s.phase t = .releasing g who .close → s.AloneWith t g.lock ms
  queueFull : ∀ t st i q n, (s.phase t).next t s.now s.memory = some st →
    .returned (.refused (.tooManyQueued i q n)) ∈ st.notes →
    ∃ a, s.phase t = .readQueue a ∧ a.policy.queueLimit = some n ∧ 0 < n
  spent : ∀ t st i n, (s.phase t).next t s.now s.memory = some st →
    .returned (.refused (.attemptsExceeded i n)) ∈ st.notes →
    ∃ a, s.phase t = .spend a (some 0) ∧ a.policy.attempts = some n ∧ 0 < n
  /-- No refusal has named zero for a limit. -/
  named : ∀ t i q n, (t, .returned (.refused (.tooManyQueued i q n))) ∈ ns ∨
    (t, .returned (.refused (.attemptsExceeded i n))) ∈ ns → 0 < n

theorem alone_of_close (h : Steps {} ms ns s) {g : Handle} {who : Releaser}
    (hp : s.phase t = .releasing g who .close) : s.AloneWith t g.lock ms := by
  have hs : s.Reached := ⟨ms, ns, h⟩
  have hone : s.holdsOf t g.lock = 1 := hs.holdsOf_of_close hp
  have howner : (s.memory.lock g.lock).mutex.owner = some t :=
    hs.owner_iff.mpr (hone ▸ Nat.one_pos)
  have hprobe : (s.phase t).stake.inFlight g.lock = 1 := by
    rw [hp]
    exact Stake.inFlight_probing rfl g
  have hothers (u : ThreadId) (hu : u ≠ t) : s.holdsOf u g.lock = 0 := by
    by_contra hne
    have hu' := hs.owner_iff.mpr (Nat.pos_of_ne_zero hne)
    exact hu (Option.some.inj (hu'.symm.trans howner))
  refine ⟨howner, ?_, fun u => ?_, hothers⟩
  · rw [← hone]
    exact (if_pos howner).symm
  · have hheld := holdsOf_eq_granted h u g.lock
    have hnonneg := granted_nonneg h u g.lock
    by_cases hu : u = t
    · subst hu
      omega
    · have hzero := hothers u hu
      omega

/-- **No branch is taken that is there for what should not happen.** Whatever threads do and however
their actions interleave, a closed lock and a probe are given back without fail, no count of holds
is taken below zero, a lock is closed by its owner who has no hold but that of its probe while
nobody else was granted one, and a refusal for too long a queue or too many attempts names the limit
that the policy has. -/
theorem faultless (h : Steps {} ms ns s) : s.Faultless ms ns where
  silent t e he := by
    obtain ⟨s₁, st, hs₁, hst, he⟩ := Steps.note h .start he nofun
    exact hs₁.isFault_eq_false hst he
  backOut t a hp := Reached.release?_of_backOut ⟨ms, ns, h⟩ hp
  unprobe t g who hp := Reached.release?_of_unprobe ⟨ms, ns, h⟩ hp
  counted t l x hx := (Reached.wf ⟨ms, ns, h⟩ l).holds_of_release? hx
  closes t g who hp := alone_of_close h hp
  queueFull t st i q n hst ho := limit_of_queueFull hst ho
  spent t st i n hst ho := Reached.limit_of_spent ⟨ms, ns, h⟩ hst ho
  named t i q n hn := by
    rcases hn with hn | hn
    · obtain ⟨s₁, st, -, hst, ho⟩ := Steps.note h .start hn nofun
      obtain ⟨a, -, -, hpos⟩ := limit_of_queueFull hst ho
      exact hpos
    · obtain ⟨s₁, st, hs₁, hst, ho⟩ := Steps.note h .start hn nofun
      obtain ⟨a, -, -, hpos⟩ := hs₁.limit_of_spent hst ho
      exact hpos

/-- One attempt, and two threads that may wait. -/
def strict : Policy :=
  { hasty with queueLimit := some 2, queueLimit_valid := by simp [Int64.size] }

/-- While thread 1 has "a", threads 3 and 4 wait for it in vain, and thread 2 is refused twice: the
queue is full, and then its attempts are used up. Thread 5 closes "b" by itself and gives it back,
and thread 6 takes it. Then thread 1 gives "a" back and is about to close it. -/
def rivals : List Move := List.flatten
  [[.call 0 (.act (.makeTable strict false)), .act 0, .call 1 (.obtain 0 "a")],
    List.replicate 4 (.act 1), [.call 3 (.lockFor 0 (.ofMillis 100))], List.replicate 3 (.act 3),
    [.call 4 (.lockFor 0 (.ofMillis 100))], List.replicate 3 (.act 4),
    [.call 2 (.obtain 0 "a")], List.replicate 3 (.act 2), [.tick 100000000, .rouse 3],
    List.replicate 3 (.act 3), [.rouse 4], List.replicate 3 (.act 4),
    [.call 2 (.obtain 0 "a")], List.replicate 14 (.act 2),
    [.call 5 (.obtain 0 "b")], List.replicate 4 (.act 5), [.call 5 (.act (.close 1)), .act 5],
    [.call 5 (.unlock 1), .act 5, .act 5, .call 6 (.obtain 0 "b")], List.replicate 3 (.act 6),
    [.call 1 (.release ⟨0, 0⟩)], List.replicate 4 (.act 1)]

theorem faultless_rivals : ∃ s ns, run {} rivals = some (s, ns) ∧
    s.phase 1 = .releasing ⟨0, 0⟩ .handle .close ∧
    s.phase 6 = .backOut { lock := 1, policy := strict, table := some 0 } ∧
    (2, .returned (.refused (.tooManyQueued "a" 2 2))) ∈ ns ∧
    (2, .returned (.refused (.attemptsExceeded "a" 1))) ∈ ns ∧ s.Faultless rivals ns := by
  have hx : ((run {} rivals).any fun r =>
      r.1.phase 1 = .releasing ⟨0, 0⟩ .handle .close ∧
      r.1.phase 6 = .backOut { lock := 1, policy := strict, table := some 0 } ∧
      (2, .returned (.refused (.tooManyQueued "a" 2 2))) ∈ r.2 ∧
      (2, .returned (.refused (.attemptsExceeded "a" 1))) ∈ r.2) = true := by decide +kernel
  obtain ⟨⟨s, ns⟩, hr, hx⟩ := (Option.any_eq_true _ _).mp hx
  obtain ⟨hclose, hback, hfull, hspent⟩ := of_decide_eq_true hx
  exact ⟨s, ns, hr, hclose, hback, hfull, hspent, faultless (run_eq_some_iff.mp hr)⟩

end System

end KeyedLocks
