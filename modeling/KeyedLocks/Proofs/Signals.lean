import KeyedLocks.Proofs.Refusal

/-!
# Interrupts and what consumes them

`System.signals t s ms` lists what the moves `ms` from `s` on let others see of the flag of `t`: an
interrupt raises it, and it is consumed when a wait of `t` ends because of it, or when someone
clears it and is told that it was up. The flag is up just when an interrupt came after all that
consumed it (`Pending`), so none is lost and none counts twice (`System.flags_conserved`).

One action and its signal agree with what happens to the flag (`Phase.next_signal`): a wait that
ends with the flag of its thread up says so, and no call says so elsewhere (`Phase.Refusal`).
-/

namespace KeyedLocks

inductive Signal where
  | raised
  | consumed
deriving Repr, DecidableEq

/-- An interrupt that nothing consumed since. -/
def Pending (l : List Signal) : Prop := ∃ a b, l = a ++ .raised :: b ∧ .consumed ∉ b

/-- What a signal tells of a flag: whether it was up before, and is up after. -/
def Signal.Tells (before after : Prop) : Option Signal → Prop
  | none => after ↔ before
  | some .raised => after
  | some .consumed => before ∧ ¬ after

section
variable {l a b c : List Signal}

theorem not_pending_nil : ¬ Pending [] := by
  rintro ⟨a, b, h, -⟩
  cases a <;> cases h

theorem pending_raised (l : List Signal) : Pending (l ++ [.raised]) :=
  ⟨l, [], rfl, List.not_mem_nil⟩

theorem not_pending_consumed (l : List Signal) : ¬ Pending (l ++ [.consumed]) := by
  rintro ⟨a, b, h, hb⟩
  rcases List.eq_nil_or_concat b with rfl | ⟨b, x, rfl⟩
  · have hlast := (List.append_inj' h rfl).2
    cases hlast
  · rw [List.concat_eq_append, ← List.cons_append, ← List.append_assoc] at h
    have hlast := (List.append_inj' h rfl).2
    cases hlast
    rw [List.concat_eq_append] at hb
    exact hb (List.mem_append_right _ (List.mem_singleton_self _))

theorem Pending.raised_mem (h : Pending (a ++ .consumed :: b)) : .raised ∈ b := by
  obtain ⟨c, d, he, hd⟩ := h
  rcases List.append_eq_append_iff.mp he with ⟨e, rfl, hce⟩ | ⟨e, rfl, hce⟩
  · cases e with
    | nil => cases hce
    | cons x e =>
      rw [List.cons_append, List.cons.injEq] at hce
      rw [hce.2]
      exact List.mem_append_right _ (List.mem_cons_self ..)
  · cases e with
    | nil => cases hce
    | cons x e =>
      rw [List.cons_append, List.cons.injEq] at hce
      rw [hce.2] at hd
      exact absurd (List.mem_append_right _ (List.mem_cons_self ..)) hd

end

/-- The outcome of a wait that has taken down the flag of its thread. -/
def Outcome.heeds : Outcome → Bool
  | .refused (.interrupted _) | .waited .interrupted => true
  | _ => false

def Note.heeds : Note → Bool
  | .returned o => o.heeds
  | _ => false

/-- What an action of `u` from a phase says about the flag of `t`, if it lets others see `notes`. -/
def Phase.signal? (t u : ThreadId) (notes : List Note) : Phase → Option Signal
  | .interrupting v .raise => if v = t then some .raised else none
  | .acting (.clearInterrupt v) =>
    if v = t ∧ .returned (.cleared true) ∈ notes then some .consumed else none
  | _ => if u = t ∧ notes.any Note.heeds then some .consumed else none

/-- The phase is one of an interrupt, or of a call that is over after one action. -/
def Phase.isTask : Phase → Bool
  | .interrupting .. | .acting _ => true
  | _ => false

section
variable {me t : ThreadId} {now : Nat} {m : Memory} {p : Phase} {st : Step} {e : Errand}

/-! ## What an action says -/

theorem exists_returned_of_heeds {notes : List Note} (h : notes.any Note.heeds) :
    ∃ o, .returned o ∈ notes ∧ o.heeds := by
  obtain ⟨n, hn, ho⟩ := List.any_eq_true.mp h
  cases n with
  | returned o => exact ⟨o, hn, ho⟩
  | called | event => cases ho

/-- A thread that finds its flag up takes it down, leaves the wait and says so. -/
theorem Phase.heeds_of_checkFlag {d : Option Nat}
    (h : (Phase.waiting e d .checkFlag).next me now m = some st) (hf : m.isInterrupted me) :
    st.notes.any Note.heeds ∧ st.memory.interrupted = (m.clearInterrupt me).interrupted := by
  cases next_acts h with
  | heed =>
    constructor
    · cases e <;> rfl
    · exact Errand.interrupted_conclude ..
  | drowse hn =>
    rw [hf] at hn
    cases hn

theorem Phase.checkFlag_of_heeds (h : p.next me now m = some st) (hh : st.notes.any Note.heeds) :
    (∃ e d, p = .waiting e d .checkFlag) ∧ m.isInterrupted me := by
  obtain ⟨o, ho, hheeds⟩ := exists_returned_of_heeds hh
  have hf : o.isFailure := by
    cases o with
    | refused => rfl
    | waited r => cases r <;> first | rfl | cases hheeds
    | _ => cases hheeds
  cases next_refusal h ho hf with
  | interrupted hi | woken hi => exact ⟨⟨_, _, rfl⟩, hi⟩
  | queueFull | spent | deadlock | unreleased | unlocked => cases hheeds

theorem Memory.isInterrupted_of_eq {m m' : Memory} (h : m'.interrupted = m.interrupted) :
    m'.isInterrupted t ↔ m.isInterrupted t := by
  rw [isInterrupted, isInterrupted, h]

theorem Phase.signal?_of_ne {notes : List Note} (hr : ∀ v, p ≠ .interrupting v .raise)
    (hc : ∀ v, p ≠ .acting (.clearInterrupt v)) : p.signal? t me notes =
      if me = t ∧ notes.any Note.heeds then some .consumed else none := by
  unfold signal?
  split
  · exact absurd rfl (hr _)
  · exact absurd rfl (hc _)
  · rfl

theorem Phase.raise_signal {v : ThreadId}
    (h : (Phase.interrupting v .raise).next me now m = some st) :
    Signal.Tells (m.isInterrupted t) (st.memory.isInterrupted t)
      ((Phase.interrupting v .raise).signal? t me st.notes) := by
  cases h
  show Signal.Tells _ ((m.interrupt v).isInterrupted t) (if v = t then some .raised else none)
  rw [Memory.isInterrupted_iff, Memory.isInterrupted_iff, Memory.mem_interrupt]
  split
  · next hv => exact .inr hv.symm
  · next hv => exact or_iff_left (Ne.symm hv)

theorem Phase.clear_signal {v : ThreadId}
    (h : (Phase.acting (.clearInterrupt v)).next me now m = some st) :
    Signal.Tells (m.isInterrupted t) (st.memory.isInterrupted t)
      ((Phase.acting (.clearInterrupt v)).signal? t me st.notes) := by
  cases h
  show Signal.Tells _ ((m.clearInterrupt v).isInterrupted t)
    (if v = t ∧ Note.returned (.cleared true) ∈ [Note.returned (.cleared (m.isInterrupted v))] then
      some .consumed else none)
  have hmem : Note.returned (.cleared true) ∈ [Note.returned (.cleared (m.isInterrupted v))] ↔
      m.isInterrupted v := by
    rw [List.mem_singleton, Note.returned.injEq, Outcome.cleared.injEq, eq_comm]
  have hafter : (m.clearInterrupt v).isInterrupted t ↔ m.isInterrupted t ∧ t ≠ v := by
    rw [Memory.isInterrupted_iff, Memory.isInterrupted_iff, Memory.mem_clearInterrupt]
  split
  · next hv =>
    obtain ⟨rfl, hi⟩ := hv
    exact ⟨hmem.mp hi, fun ha => (hafter.mp ha).2 rfl⟩
  · next hv =>
    refine hafter.trans (and_iff_left_of_imp fun hi => ?_)
    rintro rfl
    exact hv ⟨rfl, hmem.mpr hi⟩

/-- A thread takes down its flag when a wait ends because of it, and not without saying so. -/
theorem Phase.wait_signal (hr : ∀ v, p ≠ .interrupting v .raise)
    (hc : ∀ v, p ≠ .acting (.clearInterrupt v)) (h : p.next me now m = some st) :
    Signal.Tells (m.isInterrupted t) (st.memory.isInterrupted t) (p.signal? t me st.notes) := by
  rw [signal?_of_ne hr hc]
  split
  · next hh =>
    obtain ⟨rfl, hh⟩ := hh
    obtain ⟨⟨e, d, rfl⟩, hi⟩ := checkFlag_of_heeds h hh
    refine ⟨hi, fun hn => ?_⟩
    rw [Memory.isInterrupted_iff, (heeds_of_checkFlag h hi).2] at hn
    exact (Memory.mem_clearInterrupt.mp hn).2 rfl
  · next hh =>
    show st.memory.isInterrupted t ↔ m.isInterrupted t
    have hflags := next_flags h
    generalize hfs : st.memory.interrupted = fs at hflags
    cases hflags with
    | keep => exact Memory.isInterrupted_of_eq hfs
    | raise => exact absurd rfl (hr _)
    | clear => exact absurd rfl (hc _)
    | heed hi =>
      have hne : t ≠ me := fun ht => hh ⟨ht.symm, (heeds_of_checkFlag h hi).1⟩
      rw [Memory.isInterrupted_iff, Memory.isInterrupted_iff, hfs, Memory.mem_clearInterrupt,
        and_iff_left hne]

/-- **What an action says about a flag is what it does to it.** -/
theorem Phase.next_signal (h : p.next me now m = some st) (t : ThreadId) :
    Signal.Tells (m.isInterrupted t) (st.memory.isInterrupted t) (p.signal? t me st.notes) := by
  by_cases hr : ∃ v, p = .interrupting v .raise
  · obtain ⟨v, rfl⟩ := hr
    exact raise_signal h
  by_cases hc : ∃ v, p = .acting (.clearInterrupt v)
  · obtain ⟨v, rfl⟩ := hc
    exact clear_signal h
  · exact wait_signal (fun v hv => hr ⟨v, hv⟩) (fun v hv => hc ⟨v, hv⟩) h

/-! ## What calls do -/

theorem Errand.isTask_conclude (r : WaitResult) : (e.conclude m r).phase.isTask = false := by
  cases e <;> cases r <;> rfl

/-- Only an interrupt goes on as one, and it raises the flag at its beginning. -/
theorem Phase.next_task (h : p.next me now m = some st) : st.phase.isTask = false ∨
    ∃ v s s', p = .interrupting v s ∧ st.phase = .interrupting v s' ∧ s' ≠ .raise := by
  cases next_acts h with
  | raise | seek | listLocks | inspected | spot | passOver | wake =>
    exact .inr ⟨_, _, _, rfl, rfl, by simp⟩
  | acquire | heed | timeOut | grab => exact .inl (Errand.isTask_conclude _)
  | _ => exact .inl rfl

end

namespace System

variable {s s' s₁ s₂ : System} {t u : ThreadId} {m : Move} {ms : List Move}
  {ns : List (ThreadId × Note)} {notes : List Note} {c : Call}

/-- What a move says about the flag of `t`. -/
def signal? (t : ThreadId) (s : System) : Move → Option Signal
  | .act u => (s.act u).bind fun (_, notes) => (s.phase u).signal? t u notes
  | .call .. | .rouse _ | .tick _ => none

/-- What the moves from `s` on say about the flag of `t`. -/
def signals (t : ThreadId) : System → List Move → List Signal
  | _, [] => []
  | s, m :: ms =>
    match s.move m with
    | none => []
    | some (s', _) => (s.signal? t m).toList ++ signals t s' ms

theorem signals_cons (hm : s.move m = some (s', ns)) :
    signals t s (m :: ms) = (s.signal? t m).toList ++ signals t s' ms := by
  rw [signals, hm]

theorem interrupted_of_moved (hm : s.Moved m s') (ha : ∀ u, m ≠ .act u) :
    s'.memory.interrupted = s.memory.interrupted := by
  cases hm with
  | @call u c => exact c.begin_interrupted s.now s.memory
  | act => exact absurd rfl (ha _)
  | rouse | tick => rfl

theorem signal?_of_act (h : s.act u = some (s', notes)) :
    s.signal? t (.act u) = (s.phase u).signal? t u notes := by
  rw [signal?, h, Option.bind_some]

theorem tells_of_move (hm : s.move m = some (s', ns)) (t : ThreadId) :
    Signal.Tells (s.memory.isInterrupted t) (s'.memory.isInterrupted t) (s.signal? t m) := by
  cases m with
  | act u =>
    obtain ⟨⟨s₁, notes⟩, hact, he⟩ := Option.map_eq_some_iff.mp hm
    cases he
    rw [signal?_of_act hact]
    obtain ⟨st, hst, rfl, rfl⟩ := act_eq_some_iff.mp hact
    exact Phase.next_signal hst t
  | call | rouse | tick =>
    exact Memory.isInterrupted_of_eq (interrupted_of_moved (moved hm) nofun)

/-! ## Whole runs -/

/-- Along a run, a flag is up as long as an interrupt is pending, and only such a one is
consumed. -/
theorem Steps.pending (h : Steps s ms ns s') {l : List Signal}
    (hl : s.memory.isInterrupted t ↔ Pending l) :
    (s'.memory.isInterrupted t ↔ Pending (l ++ signals t s ms)) ∧
      ∀ a b, signals t s ms = a ++ .consumed :: b → Pending (l ++ a) := by
  induction h generalizing l with
  | nil s =>
    constructor
    · rw [signals, List.append_nil]
      exact hl
    · intro a b he
      cases a <;> cases he
  | @cons s s₁ s' m ms ns ns' hm _ ih =>
    have htells := tells_of_move hm t
    rw [signals_cons hm]
    rcases hsig : s.signal? t m with _ | g
    · rw [hsig] at htells
      exact ih (htells.trans hl)
    rw [hsig] at htells
    have hl₁ : s₁.memory.isInterrupted t ↔ Pending (l ++ [g]) := by
      cases g with
      | raised => exact iff_of_true htells (pending_raised l)
      | consumed => exact iff_of_false htells.2 (not_pending_consumed l)
    obtain ⟨hend, hcons⟩ := ih hl₁
    rw [Option.toList_some, ← List.append_assoc]
    refine ⟨hend, fun a b he => ?_⟩
    rw [List.singleton_append] at he
    cases a with
    | nil =>
      cases he
      rw [List.append_nil]
      exact hl.mp htells.1
    | cons x a =>
      rw [List.cons_append, List.cons.injEq] at he
      obtain ⟨rfl, he⟩ := he
      have hpend := hcons a b he
      rw [List.append_assoc, List.singleton_append] at hpend
      exact hpend

theorem Steps.pending_of_start (h : Steps {} ms ns s) :
    (s.memory.isInterrupted t ↔ Pending (signals t {} ms)) ∧
      ∀ a b, signals t {} ms = a ++ .consumed :: b → Pending a :=
  h.pending (l := []) (iff_of_false Bool.false_ne_true not_pending_nil)

theorem During.ne_idle (h : During u c s₁ s) : s.phase u ≠ .idle := by
  cases h with
  | call hc =>
    rw [phase_of_call hc]
    cases c <;> exact nofun
  | move _ _ hi => exact hi

/-- A thread interrupts another one, or is at a call that is over after one action, only if that is
the call it made. -/
theorem During.task (h : During u c s₁ s) : (∀ v stage, s.phase u = .interrupting v stage →
    c = .interrupt v) ∧ ∀ b, s.phase u = .acting b → c = .act b := by
  induction h with
  | call hc =>
    rw [phase_of_call hc]
    constructor
    · intro v stage hp
      cases c <;> cases hp
      rfl
    · intro b hp
      cases c <;> cases hp
      rfl
  | @move s s' m ns hd hm hi ih =>
    have hmoved : s.Moved m s' := moved hm
    by_cases hact : m = .act u
    · subst hact
      cases hmoved with
      | @act _ st hst =>
        rw [phase_after]
        constructor
        · intro v stage hp
          rcases Phase.next_task hst with hn | ⟨v', stage', stage'', hp', hst', -⟩
          · rw [hp] at hn
            cases hn
          · rw [hst'] at hp
            cases hp
            exact ih.1 v stage' hp'
        · intro b hp
          rcases Phase.next_task hst with hn | ⟨v', stage', stage'', -, hst', -⟩
          · rw [hp] at hn
            cases hn
          · rw [hst'] at hp
            cases hp
    · rw [phase_of_moved hmoved hd.ne_idle hact]
      exact ih

/-- What becomes of the flag of `t` in the run `ms` from nothing to `s`, and in the calls that are
made then. -/
structure FlagConserved (t : ThreadId) (ms : List Move) (s : System) : Prop where
  /-- The flag is up just when an interrupt came after all that consumed one. -/
  up : s.memory.isInterrupted t ↔ Pending (signals t {} ms)
  /-- Whatever consumed the flag, an interrupt was pending. -/
  owed : ∀ {a b}, signals t {} ms = a ++ .consumed :: b → Pending a
  /-- Interrupts count once, however many there were, until one is consumed. -/
  once : ∀ {a b c}, signals t {} ms = a ++ .consumed :: (b ++ .consumed :: c) → .raised ∈ b
  /-- A call that interrupts `t` begins with raising the flag. -/
  raises : ∀ {u s₁}, s.call u (.interrupt t) = some s₁ → s₁.phase u = .interrupting t .raise
  /-- It does so once. -/
  raises_once : ∀ {u c s₁ s₂ notes}, During u c s s₁ → s₁.act u = some (s₂, notes) →
    s₂.phase u ≠ .interrupting t .raise
  /-- No action of another call touches the flag, unless it returns that a wait of `t` was
  interrupted, or to whoever clears the flag that it was up. -/
  kept : ∀ {u c s₁ s₂ notes}, During u c s s₁ → c ≠ .interrupt t → s₁.act u = some (s₂, notes) →
    (u = t → ∀ o, .returned o ∈ notes → o.heeds = false) →
    (c = .act (.clearInterrupt t) → .returned (.cleared true) ∉ notes) →
    (s₂.memory.isInterrupted t ↔ s₁.memory.isInterrupted t)
  /-- Calls do not touch it when they begin, nor does it matter who is roused, or what time it
  is. -/
  still : ∀ {m s₁ ns}, s.move m = some (s₁, ns) → (∀ u, m ≠ .act u) →
    (s₁.memory.isInterrupted t ↔ s.memory.isInterrupted t)

theorem During.flag_kept (h : During u c s s₁) (hc : c ≠ .interrupt t)
    (hact : s₁.act u = some (s₂, notes))
    (hw : u = t → ∀ o, .returned o ∈ notes → o.heeds = false)
    (hcl : c = .act (.clearInterrupt t) → .returned (.cleared true) ∉ notes) :
    s₂.memory.isInterrupted t ↔ s₁.memory.isInterrupted t := by
  have htells := tells_of_move (move_of_act hact) t
  rw [signal?_of_act hact] at htells
  suffices hnone : (s₁.phase u).signal? t u notes = none by
    rw [hnone] at htells
    exact htells
  unfold Phase.signal?
  split
  · next v hp =>
    refine if_neg ?_
    rintro rfl
    exact hc (h.task.1 v _ hp)
  · next v hp =>
    refine if_neg ?_
    rintro ⟨rfl, hmem⟩
    exact hcl (h.task.2 _ hp) hmem
  · refine if_neg ?_
    rintro ⟨hu, hh⟩
    obtain ⟨o, ho, hheeds⟩ := exists_returned_of_heeds hh
    rw [hw hu o ho] at hheeds
    cases hheeds

/-- **Interrupts are conserved.** In every run of calls of all kinds, the flag of each thread is up
as long as an interrupt is pending, and nothing but the end of a wait it interrupted and its
clearing takes it down. -/
theorem flags_conserved (h : Steps {} ms ns s) (t : ThreadId) : FlagConserved t ms s where
  up := h.pending_of_start.1
  owed he := h.pending_of_start.2 _ _ he
  once {a b c} he := by
    rw [← List.cons_append, ← List.append_assoc] at he
    exact (h.pending_of_start.2 _ _ he).raised_mem
  raises hc := phase_of_call hc
  raises_once {u c s₁ s₂ notes} _ hact hp := by
    obtain ⟨st, hst, -, rfl⟩ := act_eq_some_iff.mp hact
    have hp : st.phase = .interrupting t .raise := (phase_after s₁ u st).symm.trans hp
    rcases Phase.next_task hst with hn | ⟨v, stage, stage', -, hst', hne⟩
    · rw [hp] at hn
      cases hn
    · rw [hst'] at hp
      cases hp
      exact hne rfl
  kept hd hc hact hw hcl := hd.flag_kept hc hact hw hcl
  still hm ha := Memory.isInterrupted_of_eq (interrupted_of_moved (moved hm) ha)

/-- Thread 2 is interrupted twice, and then its wait for a lock of thread 1. It is interrupted
again, and that is cleared twice. At the end there is one more interrupt. -/
def nagged : List Move := List.flatten
  [[.call 0 (.act (.makeLock "a")), .act 0, .call 1 (.act (.tryLock 0)), .act 1,
      .call 3 (.interrupt 2), .act 3, .act 3, .act 3, .call 3 (.interrupt 2), .act 3,
      .call 2 (.lockFor 0 (.ofMillis 100)), .act 2, .act 2],
    [.act 3, .act 3, .call 3 (.interrupt 2), .act 3, .call 0 (.act (.clearInterrupt 2)), .act 0,
      .call 0 (.act (.clearInterrupt 2)), .act 0, .call 1 (.interrupt 2), .act 1]]

theorem flags_conserved_nagged : ∃ s ns, run {} nagged = some (s, ns) ∧
    (2, .returned (.waited .interrupted)) ∈ ns ∧ (0, .returned (.cleared true)) ∈ ns ∧
    (0, .returned (.cleared false)) ∈ ns ∧
    signals 2 {} nagged = [.raised, .raised, .consumed, .raised, .consumed, .raised] ∧
    FlagConserved 2 nagged s ∧ s.memory.isInterrupted 2 := by
  have hx : ((run {} nagged).any fun r => (2, .returned (.waited .interrupted)) ∈ r.2 ∧
      (0, .returned (.cleared true)) ∈ r.2 ∧ (0, .returned (.cleared false)) ∈ r.2) = true := by
    decide +kernel
  have hsig : signals 2 {} nagged =
      [.raised, .raised, .consumed, .raised, .consumed, .raised] := by decide +kernel
  obtain ⟨⟨s, ns⟩, hr, hdec⟩ := (Option.any_eq_true _ _).mp hx
  obtain ⟨h₀, h₁, h₂⟩ := of_decide_eq_true hdec
  have hc := flags_conserved (run_eq_some_iff.mp hr) 2
  refine ⟨s, ns, hr, h₀, h₁, h₂, hsig, hc, hc.up.mpr ?_⟩
  rw [hsig]
  exact pending_raised [.raised, .raised, .consumed, .raised, .consumed]

end System

end KeyedLocks
