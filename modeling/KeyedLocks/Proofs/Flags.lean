import KeyedLocks.Proofs.Actions

/-!
# What actions do to the flags of interrupts

`Flags me m p fs` lists what an action of `me` from phase `p` can make of the flags in the memory
`m`: an interrupt raises one, a thread takes its own down when it leaves a wait for it, and a flag
may be cleared. `Phase.next_flags` says that every action does so.
-/

namespace KeyedLocks

/-- What an action of `me` from `p` can do to the flags. -/
inductive Flags (me : ThreadId) (m : Memory) : Phase → List ThreadId → Prop where
  | keep {p : Phase} : Flags me m p m.interrupted
  | raise {t : ThreadId} : Flags me m (.interrupting t .raise) (m.interrupt t).interrupted
  | heed {e : Errand} {d : Option Nat} : m.isInterrupted me →
      Flags me m (.waiting e d .checkFlag) (m.clearInterrupt me).interrupted
  | clear {t : ThreadId} :
      Flags me m (.acting (.clearInterrupt t)) (m.clearInterrupt t).interrupted

section
variable {me t : ThreadId} {now : Nat} {m m' : Memory} {p : Phase} {st : Step}

theorem flags_of_eq (h : m'.interrupted = m.interrupted) : Flags me m p m'.interrupted := by
  rw [h]
  exact .keep

/-- **Every action does to the flags what it may.** -/
theorem Phase.next_flags (h : p.next me now m = some st) : Flags me m p st.memory.interrupted := by
  cases next_acts h with
  | raise => exact .raise
  | cleared => exact .clear
  | heed hi =>
    rw [Errand.interrupted_conclude]
    exact .heed hi
  | acquire | timeOut | grab => exact flags_of_eq (Errand.interrupted_conclude ..)
  | listTables | seek => exact flags_of_eq (Memory.interrupted_retainAll ..)
  | queueFull | spent | listed | cycle => exact flags_of_eq (Memory.interrupted_forgoAll ..)
  | _ => exact flags_of_eq rfl

/-! ## Which flags are up -/

theorem Memory.mem_clearInterrupt {u : ThreadId} :
    t ∈ (m.clearInterrupt u).interrupted ↔ t ∈ m.interrupted ∧ t ≠ u := by
  rw [clearInterrupt, List.mem_filter, decide_eq_true_eq]

theorem Memory.mem_interrupt {u : ThreadId} :
    t ∈ (m.interrupt u).interrupted ↔ t ∈ m.interrupted ∨ t = u := by
  unfold interrupt
  dsimp only
  split
  · next h =>
    constructor
    · exact .inl
    · rintro (h' | rfl)
      · exact h'
      · exact h
  · rw [List.mem_append, List.mem_singleton]

theorem Memory.isInterrupted_iff : m.isInterrupted t ↔ t ∈ m.interrupted := List.contains_iff_mem

theorem Flags.raised (hf : Flags me m p m'.interrupted) (ht : m'.isInterrupted t) :
    m.isInterrupted t ∨ p = .interrupting t .raise := by
  rw [Memory.isInterrupted_iff] at ht ⊢
  generalize hm : m'.interrupted = fs at hf ht
  cases hf with
  | keep => exact .inl ht
  | raise =>
    rcases Memory.mem_interrupt.mp ht with ht | rfl
    · exact .inl ht
    · exact .inr rfl
  | heed | clear => exact .inl (Memory.mem_clearInterrupt.mp ht).1

end

end KeyedLocks
