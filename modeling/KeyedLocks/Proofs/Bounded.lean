import KeyedLocks.Proofs.Undisturbed

/-!
# How long an acquisition goes on

A thread that runs alone may sleep as long as it likes, and wake up for no reason as often as it
likes; but between its waits it can only do so much. `Bounded t p m looks n` says that of all that
`t` can do from phase `p` with memory `m` on: it looks identifiers up `looks` times at most, and
acts `n` times at most outside its waits; and nothing holds it up but its own sleep. So it returns
if each of its waits ends.

An acquisition of a lock that someone else has is bounded by its attempts
(`Attempt.bounded_of_hindered`), and one that nothing stands in the way of acts four times at most
(`Granting.bounded_lookUp`).
-/

namespace KeyedLocks

/-- The next action of the thread is a look-up. -/
def Phase.looksUp : Phase → Bool
  | .lookUp .. => true
  | _ => false

/-- The next action of the thread is not part of a wait. -/
def Phase.busy : Phase → Bool
  | .waiting .. => false
  | _ => true

namespace Phase

variable {p : Phase}

theorem beginsWait_of_busy (h : p.busy) : p.beginsWait = false := by
  cases p <;> first | rfl | cases h

theorem not_asleep_of_busy (h : p.busy) (e : Errand) (d : Option Nat) :
    p ≠ .waiting e d .asleep := by
  rintro rfl
  cases h

end Phase

namespace System

variable {s s' s₁ : System} {t : ThreadId} {ms : List Move} {l : LockId}

/-- The moves lead from `s` to `s'`; `t` acts, sleeps and wakes up, time passes, and nobody else
moves. -/
inductive Solo (t : ThreadId) : System → List Move → System → Prop where
  | nil (s : System) : Solo t s [] s
  | act {s s₁ s' : System} {ms : List Move} {notes : List Note} : s.act t = some (s₁, notes) →
      Solo t s₁ ms s' → Solo t s (.act t :: ms) s'
  | rouse {s s₁ s' : System} {ms : List Move} : s.rouse t = some s₁ → Solo t s₁ ms s' →
      Solo t s (.rouse t :: ms) s'
  | tick {s s' : System} {ms : List Move} (d : Nat) : Solo t (s.tick d) ms s' →
      Solo t s (.tick d :: ms) s'

/-- Nothing holds `t` up but its own sleep. -/
def Unblocked (s : System) (t : ThreadId) : Prop :=
  s.phase t = .idle ∨ (s.act t).isSome ∨ (s.asleepOn t).isSome

theorem unblocked_of_next {st : Step} (h : (s.phase t).next t s.now s.memory = some st) :
    s.Unblocked t := by
  have hact : s.act t = some (s.after t st, st.notes) := act_eq_some_iff.mpr ⟨st, h, rfl, rfl⟩
  exact .inr (.inl (Option.isSome_iff_exists.mpr ⟨_, hact⟩))

theorem tally_act {q : Phase → Bool} {notes : List Note} (h : s.act t = some (s₁, notes)) :
    s.tally t q (.act t :: ms) = (q (s.phase t)).toNat + s₁.tally t q ms := by
  rw [tally_cons (move_of_act h), if_pos rfl]

theorem tally_rouse {q : Phase → Bool} (h : s.rouse t = some s₁) :
    s.tally t q (.rouse t :: ms) = s₁.tally t q ms := by
  rw [tally_cons (move_of_rouse h), if_neg (by exact nofun), Nat.zero_add]

theorem tally_tick {q : Phase → Bool} (d : Nat) :
    s.tally t q (.tick d :: ms) = (s.tick d).tally t q ms := by
  have hm : s.move (.tick d) = some (s.tick d, []) := rfl
  rw [tally_cons hm, if_neg (by exact nofun), Nat.zero_add]

end System

/-- Whatever `t` does alone from phase `p` with memory `m` on, it looks up `looks` times at most and
acts `n` times at most outside its waits, and nothing but its own sleep holds it up. -/
def Bounded (t : ThreadId) (p : Phase) (m : Memory) (looks n : Nat) : Prop :=
  ∀ (s s' : System) (ms : List Move), s.phase t = p → s.memory = m → s.Solo t ms s' →
    s.tally t Phase.looksUp ms ≤ looks ∧ s.tally t Phase.busy ms ≤ n ∧ s'.Unblocked t

namespace Bounded

variable {t : ThreadId} {p : Phase} {m m' : Memory} {looks looks' n n' : Nat} {e : Errand}
  {c : Check} {v : Verdict} {st : Step}

theorem mono (h : Bounded t p m looks n) (hl : looks ≤ looks') (hn : n ≤ n') :
    Bounded t p m looks' n' := by
  intro s s' ms hp hm hs
  obtain ⟨h₁, h₂, h₃⟩ := h s s' ms hp hm hs
  exact ⟨Nat.le_trans h₁ hl, Nat.le_trans h₂ hn, h₃⟩

theorem idle : Bounded t .idle m looks n := by
  intro s s' ms hp _ hs
  induction hs with
  | nil => exact ⟨Nat.zero_le _, Nat.zero_le _, .inl hp⟩
  | act hact =>
    obtain ⟨st, hst, -⟩ := System.act_eq_some_iff.mp hact
    rw [hp] at hst
    cases hst
  | rouse hr =>
    obtain ⟨l, hl, -⟩ := System.rouse_eq_some_iff.mp hr
    obtain ⟨e, d, he, -⟩ := System.asleepOn_eq_some_iff.mp hl
    rw [hp] at he
    cases he
  | tick d _ ih =>
    rw [System.tally_tick, System.tally_tick]
    exact ih hp ‹_›

/-- The action counts, and then what comes after it. -/
theorem of_next (hb : p.busy) (h : ∀ now, ∃ st, p.next t now m = some st ∧
      Bounded t st.phase st.memory looks n) :
    Bounded t p m (looks + p.looksUp.toNat) (n + 1) := by
  intro s s' ms hp hm hs
  induction hs with
  | nil s =>
    obtain ⟨st, hst, -⟩ := h s.now
    subst hp hm
    exact ⟨Nat.zero_le _, Nat.zero_le _, System.unblocked_of_next hst⟩
  | @act s _ _ _ _ hact hs =>
    rw [System.tally_act hact, System.tally_act hact]
    obtain ⟨st', hst', rfl, rfl⟩ := System.act_eq_some_iff.mp hact
    obtain ⟨st, hst, hrest⟩ := h s.now
    subst hp hm
    cases hst.symm.trans hst'
    obtain ⟨h₁, h₂, h₃⟩ := hrest _ _ _ (System.phase_after ..) rfl hs
    rw [hb, Bool.toNat_true, Nat.add_comm, Nat.add_comm 1]
    exact ⟨Nat.add_le_add_right h₁ _, Nat.add_le_add_right h₂ _, h₃⟩
  | rouse hr =>
    obtain ⟨l, hl, -⟩ := System.rouse_eq_some_iff.mp hr
    obtain ⟨e, d, he, -⟩ := System.asleepOn_eq_some_iff.mp hl
    exact absurd (hp.symm.trans he) (Phase.not_asleep_of_busy hb e d)
  | tick d _ ih =>
    rw [System.tally_tick, System.tally_tick]
    exact ih hp hm

theorem of_act (hb : p.busy) (hp : p.looksUp = false)
    (hst : ∀ now, p.next t now m = some st) (h : Bounded t st.phase st.memory looks n) :
    Bounded t p m looks (n + 1) := by
  have hall := of_next hb fun now => ⟨st, hst now, h⟩
  rwa [hp] at hall

theorem of_lookUp {table : TableId} {i : String}
    (hst : ∀ now, (Phase.lookUp table i).next t now m = some st)
    (h : Bounded t st.phase st.memory looks n) :
    Bounded t (.lookUp table i) m (looks + 1) (n + 1) :=
  of_next rfl fun now => ⟨st, hst now, h⟩

theorem of_run (hr : c.Run t e.lock m m' v)
    (h : Bounded t (e.judge m' v).phase (e.judge m' v).memory looks n) :
    ∃ n, Bounded t (.checking e c) m looks n := by
  have hnext {m m' : Memory} {c : Check} {v : Verdict} (hn : c.next t m e.lock = some (m', v))
      (now : Nat) : (Phase.checking e c).next t now m = some (e.judge m' v) := by
    show (c.next t m e.lock).map _ = _
    rw [hn]
    rfl
  induction hr with
  | last hn => exact ⟨_, of_act rfl rfl (hnext hn) h⟩
  | more hn _ ih =>
    obtain ⟨n, hrest⟩ := ih h
    exact ⟨_, of_act rfl rfl (hnext hn) hrest⟩

end Bounded

/-! ## Locks that someone else has -/

section
variable {t : ThreadId} {M m : Memory} {a : Attempt} {left d : Option Nat} {now looks n : Nat}
  {p : Phase}

/-- Where a wait of the acquisition of `a` can be, with the memory there; `M` is the memory before
the wait. -/
inductive Pausing (t : ThreadId) (M : Memory) (a : Attempt) (left d : Option Nat) :
    Phase → Memory → Prop where
  | enter : Pausing t M a left d (.waiting (.attempt a left) d .enter) M
  | checkFlag : Pausing t M a left d (.waiting (.attempt a left) d .checkFlag) (M.queued a.lock t)
  | doze : Pausing t M a left d (.waiting (.attempt a left) d .doze) (M.queued a.lock t)
  | asleep : Pausing t M a left d (.waiting (.attempt a left) d .asleep)
      (M.dozing a.lock t ((M.lock a.lock).sleepers ++ [t]))
  | roused : Pausing t M a left d (.waiting (.attempt a left) d .asleep)
      (M.dozing a.lock t (M.lock a.lock).sleepers)

namespace Pausing

theorem quiet (h : Pausing t M a left d p m) : p.looksUp = false ∧ p.busy = false := by
  cases h <;> exact ⟨rfl, rfl⟩

/-- The wait goes on, or it is over and the thread checks again, or the thread was interrupted. -/
def Continues (t : ThreadId) (M : Memory) (a : Attempt) (left d : Option Nat) (st : Step) : Prop :=
  Pausing t M a left d st.phase st.memory ∨
    st.phase = .checking (.attempt a left) .isLocked ∧ st.memory = M ∨ st.phase = .idle

section
variable (hk : Hindered t (M.lock a.lock)) (hl : (M.lock a.lock).latch = none)
include hk

theorem rouse (h : Pausing t M a left d p m) {e : Errand} {d' : Option Nat}
    (hp : p = .waiting e d' .asleep) (ht : t ∈ (m.lock e.lock).sleepers) :
    Pausing t M a left d p (m.rouse e.lock t) := by
  cases h with
  | asleep =>
    cases hp
    show Pausing t M a left d _ ((M.dozing a.lock t _).rouse a.lock t)
    rw [rouse_dozing hk]
    exact .roused
  | roused =>
    cases hp
    have hawake : t ∈ ((M.dozing a.lock t (M.lock a.lock).sleepers).lock a.lock).sleepers := ht
    rw [Memory.dozing, Memory.lock_put_self] at hawake
    exact absurd hawake hk.awake
  | _ => cases hp

include hl

theorem next (h : Pausing t M a left d p m) : (∃ st, p.next t now m = some st ∧
      Continues t M a left d st) ∨
    p.next t now m = none ∧ p = .waiting (.attempt a left) d .asleep ∧
      t ∈ (m.lock a.lock).sleepers := by
  cases h with
  | enter => exact .inl ⟨_, next_enter hk hl, .inl .checkFlag⟩
  | checkFlag =>
    refine .inl ⟨_, next_checkFlag hk hl, ?_⟩
    split
    · exact .inr (.inr rfl)
    · exact .inl .doze
  | doze =>
    refine .inl ⟨_, next_doze hk hl, ?_⟩
    split
    · exact .inr (.inl ⟨rfl, rfl⟩)
    · exact .inl .asleep
  | asleep =>
    have ht : t ∈ (M.lock a.lock).sleepers ++ [t] :=
      List.mem_append_right _ (List.mem_singleton_self t)
    refine .inr ⟨next_asleep_eq_none ht, rfl, ?_⟩
    rw [Memory.dozing, Memory.lock_put_self]
    exact ht
  | roused => exact .inl ⟨_, next_asleep hk, .inl .checkFlag⟩

theorem bounded (hc : Bounded t (.checking (.attempt a left) .isLocked) M looks n)
    (h : Pausing t M a left d p m) : Bounded t p m looks n := by
  intro s s' ms hp hm hs
  induction hs generalizing p m with
  | nil s =>
    refine ⟨Nat.zero_le _, Nat.zero_le _, ?_⟩
    subst hp hm
    rcases h.next hk hl with ⟨st, hst, -⟩ | ⟨-, hp, ht⟩
    · exact System.unblocked_of_next hst
    · refine .inr (.inr (Option.isSome_iff_exists.mpr ⟨a.lock, ?_⟩))
      exact System.asleepOn_eq_some_iff.mpr ⟨_, d, hp, rfl, ht⟩
  | @act s _ s' ms _ hact hs ih =>
    rw [System.tally_act hact, System.tally_act hact, hp, h.quiet.1, h.quiet.2, Bool.toNat_false,
      Nat.zero_add, Nat.zero_add]
    obtain ⟨st, hst, rfl, rfl⟩ := System.act_eq_some_iff.mp hact
    have hphase : (s.after t st).phase t = st.phase := System.phase_after ..
    subst hp hm
    rcases h.next hk hl with ⟨st', hst', hnext⟩ | ⟨hnone, -⟩
    · cases hst'.symm.trans hst
      rcases hnext with hwait | ⟨hp', hm'⟩ | hidle
      · exact ih hwait hphase rfl
      · exact hc _ _ _ (hphase.trans hp') hm' hs
      · exact Bounded.idle _ _ _ (hphase.trans hidle) rfl hs
    · cases hnone.symm.trans hst
  | rouse hr _ ih =>
    rw [System.tally_rouse hr, System.tally_rouse hr]
    obtain ⟨l, hl, rfl⟩ := System.rouse_eq_some_iff.mp hr
    obtain ⟨e, d', he, rfl, ht⟩ := System.asleepOn_eq_some_iff.mp hl
    subst hp hm
    exact ih (h.rouse hk he ht) rfl rfl
  | tick d _ ih =>
    rw [System.tally_tick, System.tally_tick]
    exact ih h hp hm

end

end Pausing

namespace Attempt

section
variable (hl : ∀ l ∈ a.lock :: M.liveLocks, (M.lock l).latch = none)
include hl

theorem bounded_check (h : Bounded t (.spend a left) M looks n) :
    ∃ n, Bounded t (.checking (.attempt a left) .isLocked) M looks n := by
  obtain ⟨m, v, hr⟩ : Check.Ends t a.lock M .isLocked := Check.ends_of_free hl
  refine Bounded.of_run (n := n) hr ?_
  obtain ⟨hv, hend⟩ := hr.exact .isLocked
  cases hv with
  | more => exact absurd rfl (hend _)
  | passed => exact h
  | cycle => exact .idle

theorem bounded_spend (hk : Hindered t (M.lock a.lock)) (r : Nat) :
    ∃ n, Bounded t (.spend a (some r)) M 0 n := by
  induction r with
  | zero =>
    refine ⟨0 + 1, .of_next rfl fun now => ⟨_, next_spend .., ?_⟩⟩
    rw [spend, if_pos rfl]
    exact .idle
  | succ r ih =>
    obtain ⟨n, hrest⟩ := ih
    obtain ⟨n, hcheck⟩ := bounded_check hl hrest
    have hmore : some (r + 1) ≠ some 0 := fun h => Nat.succ_ne_zero r (Option.some.inj h)
    refine ⟨n + 1, .of_next rfl fun now => ⟨_, next_spend .., ?_⟩⟩
    rw [spend, if_neg hmore]
    exact Pausing.enter.bounded hk (hl _ (.head _)) hcheck

end

/-- A policy that bounds the attempts bounds all that an acquisition does that someone else stands
in the way of. If the queue is full, no other lock counts. -/
theorem bounded_of_hindered (hk : Hindered t (M.lock a.lock))
    (hl : (M.lock a.lock).latch = none)
    (hlive : a.policy.queueLimitReached (M.lock a.lock).mutex.queueLength = false →
      ∀ l ∈ M.liveLocks, (M.lock l).latch = none) (ha : a.policy.attempts ≠ none) :
    ∃ n, Bounded t (.tryTake a) M 0 n := by
  obtain ⟨r, hr⟩ := Option.ne_none_iff_exists'.mp ha
  suffices h : ∃ n, Bounded t (.readQueue a) M 0 n by
    obtain ⟨n, hrest⟩ := h
    exact ⟨n + 1, .of_act rfl rfl (fun _ => next_tryTake hk hl) hrest⟩
  by_cases hq : a.policy.queueLimitReached (M.lock a.lock).mutex.queueLength
  · refine ⟨0 + 1, .of_act rfl rfl (fun _ => next_readQueue hl) ?_⟩
    rw [if_pos hq]
    exact .idle
  · have hfree : ∀ l ∈ a.lock :: M.liveLocks, (M.lock l).latch = none :=
      List.forall_mem_cons.mpr ⟨hl, hlive (Bool.eq_false_iff.mpr hq)⟩
    obtain ⟨n, hspend⟩ := bounded_spend hfree hk (r - 1)
    obtain ⟨n, hcheck⟩ := bounded_check hfree hspend
    refine ⟨n + 1, .of_act rfl rfl (fun _ => next_readQueue hl) ?_⟩
    rw [if_neg hq, hr]
    exact hcheck

end Attempt

end

/-! ## Locks that can be had -/

namespace Granting

variable {t : ThreadId} {M m : Memory} {table : TableId} {i : String} {l : LockId} {policy : Policy}
  (ho : M.Open t table i)
include ho

theorem bounded_tryTake (h : M.Enlists table i m l) (hl : (m.lock l).latch = none) :
    Bounded t (.tryTake ⟨l, policy, some table⟩) m 0 2 := by
  obtain ⟨hc, x, hx⟩ := h.ready ho
  have hlast : Bounded t (.readClosed ⟨l, policy, some table⟩) (m.setMutex l x) 0 1 :=
    .of_act rfl rfl (fun _ => next_readClosed hc) .idle
  have htake (now : Nat) : (Phase.tryTake ⟨l, policy, some table⟩).next t now m =
      some (.moveTo (m.setMutex l x) (.readClosed ⟨l, policy, some table⟩)) :=
    Attempt.next_tryTake_of_take? hl hx
  exact .of_act rfl rfl htake hlast

theorem bounded_lookUp (hl : ∀ l, (M.table table).find? i = some l → (M.lock l).latch = none) :
    Bounded t (.lookUp table i) M 1 4 := by
  rcases hf : (M.table table).find? i with - | l
  · have h : M.Enlists table i (M.addEntry table i) M.locks.fresh := .fresh hf
    refine .of_lookUp (fun _ => next_lookUp_absent hf) ?_
    exact .of_act rfl rfl (fun _ => next_insert hf) (bounded_tryTake ho h (h.latch hl))
  · have h : M.Enlists table i M l := .registered hf
    have hrest : Bounded t (.tryTake (.ofEntry M table l)) M 0 2 := bounded_tryTake ho h (hl l hf)
    exact .of_lookUp (fun _ => next_lookUp_found hf) (hrest.mono (Nat.le_refl 0) (by decide))

end Granting

end KeyedLocks
