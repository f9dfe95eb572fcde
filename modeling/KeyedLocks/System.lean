import KeyedLocks.Step

/-!
# Systems of threads

A `System` is the shared memory, the phase of every thread and the clock. A `Move` is what may
happen next: an idle thread starts a call, a thread carries out its next action, a sleeping thread
is roused (its time is over, or for no reason at all), or time passes. `Steps` chains moves, and
collects what each thread lets others see.
-/

namespace KeyedLocks

structure System where
  memory : Memory := {}
  phases : Arena Phase := .empty
  /-- Nanoseconds since the start. -/
  now : Nat := 0
deriving DecidableEq, Inhabited

inductive Move where
  | call (t : ThreadId) (c : Call)
  | act (t : ThreadId)
  | rouse (t : ThreadId)
  | tick (nanos : Nat)
deriving DecidableEq

namespace System

def phase (s : System) (t : ThreadId) : Phase := s.phases.get t

/-- Start a call on an idle thread. -/
def call (s : System) (t : ThreadId) (c : Call) : Option System :=
  if s.phase t = .idle then
    let (memory, phase) := c.begin s.now s.memory
    some { s with memory, phases := s.phases.set t phase }
  else none

/-- Let a thread carry out its next action. -/
def act (s : System) (t : ThreadId) : Option (System × List Note) :=
  ((s.phase t).next t s.now s.memory).map fun step =>
    ({ s with memory := step.memory, phases := s.phases.set t step.phase }, step.notes)

/-- The lock a thread is asleep on, with no wake-up on its way. -/
def asleepOn (s : System) (t : ThreadId) : Option LockId :=
  match s.phase t with
  | .waiting e _ .asleep => if t ∈ (s.memory.lock e.lock).sleepers then some e.lock else none
  | _ => none

/-- Send a sleeping thread a wake-up. -/
def rouse (s : System) (t : ThreadId) : Option System :=
  (s.asleepOn t).map fun l => { s with memory := s.memory.rouse l t }

def tick (s : System) (nanos : Nat) : System := { s with now := s.now + nanos }

/-- When the wait of a sleeping thread is over, if it ever is. -/
def deadline? (s : System) (t : ThreadId) : Option Nat :=
  match s.phase t with
  | .waiting _ deadline .asleep => deadline
  | _ => none

/-- Let time pass to a moment, and rouse those threads whose time is over. -/
def passTo (s : System) (threads : List ThreadId) (moment : Nat) : System :=
  let s := s.tick (moment - s.now)
  (threads.filter fun t => (s.deadline? t).any (· ≤ moment)).foldl (fun s t => (s.rouse t).getD s) s

/-- The thread a move belongs to is paired with what it lets others see. -/
def move (s : System) : Move → Option (System × List (ThreadId × Note))
  | .call t c => (s.call t c).map fun s => (s, [(t, .called c)])
  | .act t => (s.act t).map fun (s, notes) => (s, notes.map (t, ·))
  | .rouse t => (s.rouse t).map fun s => (s, [])
  | .tick d => some (s.tick d, [])

/-- `Steps s moves notes s'`: the moves lead from `s` to `s'`, with these notes. -/
inductive Steps : System → List Move → List (ThreadId × Note) → System → Prop where
  | nil (s : System) : Steps s [] [] s
  | cons {s s' s'' : System} {m : Move} {ms : List Move} {ns ns' : List (ThreadId × Note)} :
      s.move m = some (s', ns) → Steps s' ms ns' s'' → Steps s (m :: ms) (ns ++ ns') s''

/-- Carry out a list of moves, if all of them are possible. -/
def run : System → List Move → Option (System × List (ThreadId × Note))
  | s, [] => some (s, [])
  | s, m :: ms =>
    match s.move m with
    | none => none
    | some (s', ns) => (s'.run ms).map fun (s'', ns') => (s'', ns ++ ns')

theorem run_eq_some_iff {s s' : System} {ms : List Move} {ns : List (ThreadId × Note)} :
    s.run ms = some (s', ns) ↔ Steps s ms ns s' := by
  constructor
  · intro h
    induction ms generalizing s ns with
    | nil => cases h; exact .nil _
    | cons m ms ih =>
      unfold run at h
      split at h
      · cases h
      · next s₁ ns₁ hm =>
        simp only [Option.map_eq_some_iff] at h
        obtain ⟨⟨s₂, ns₂⟩, hr, he⟩ := h
        cases he
        exact .cons hm (ih hr)
  · intro h
    induction h with
    | nil => rfl
    | cons hm _ ih => simp [run, hm, ih]

theorem Steps.append {s s' s'' : System} {ms ms' : List Move} {ns ns' : List (ThreadId × Note)}
    (h : Steps s ms ns s') (h' : Steps s' ms' ns' s'') : Steps s (ms ++ ms') (ns ++ ns') s'' := by
  induction h with
  | nil => exact h'
  | cons hm _ ih => rw [List.append_assoc]; exact .cons hm (ih h')

end System

end KeyedLocks
