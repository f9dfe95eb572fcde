import KeyedLocks.Proofs.Strides

/-!
# Runs of one operation at a time

A run is carried out stint by stint (`Bench.Serial`): an operation starts or goes on, and its thread
works until it is idle or asleep. There is one way to carry out a stint (`Bench.stint_unique`), and
after it all threads are idle or asleep (`Bench.Settled.stint`).
-/

namespace KeyedLocks

namespace Scenario

/-! ## Stints -/

/-- An operation starts or goes on until its thread is idle or asleep, or something happens that
wakes threads. What belongs to an operation carries the number of its step. -/
inductive Stint where
  | deed (step : Nat) (d : Deed)
  | resume (step : Nat) (t : ThreadId)
  | rouse (step : Nat) (t : ThreadId)
  | tick (nanos : Nat)

def Stint.step? : Stint → Option Nat
  | deed step _ | resume step _ | rouse step _ => some step
  | tick _ => none

/-- Users of factories do so, and nobody is interrupted. -/
def Stint.Plain : Stint → Prop
  | deed _ d => d.onFactories ∧ ∀ target, d ≠ .command (.interrupt target)
  | resume .. | rouse .. | tick _ => True

namespace Bench

/-- Let a thread work until it is idle or asleep. -/
def finish (fuel : Nat) (b : Bench) (t : ThreadId) : Option Bench :=
  if (b.runThread fuel t).Rests t then some (b.runThread fuel t) else none

/-- Whether thread `t` is still at what it started as step `step`. -/
def isAt (b : Bench) (t : ThreadId) (step : Nat) : Bool := (b.job? t).any (·.step = step)

def stint (fuel : Nat) (b : Bench) : Stint → Option Bench
  | .deed step d =>
    if b.free d then (b.turn (.deed step d)).bind fun b₁ => b₁.finish fuel (b.start d).2.1 else none
  | .resume step t => if b.isAt t step then b.finish fuel t else none
  | .rouse step t => if b.isAt t step then b.turn (.rouse t) else none
  | .tick nanos => b.turn (.tick nanos)

/-- Stints one after the other lead from one bench to another. -/
inductive Serial : Bench → List Stint → Bench → Prop where
  | nil (b : Bench) : Serial b [] b
  | cons {b b₁ b₂ : Bench} {x : Stint} {xs : List Stint} {fuel : Nat} :
      b.stint fuel x = some b₁ → Serial b₁ xs b₂ → Serial b (x :: xs) b₂

/-- Carry out stints, if all of them are possible. -/
def serial (fuel : Nat) : Bench → List Stint → Option Bench
  | b, [] => some b
  | b, x :: xs => (b.stint fuel x).bind fun b₁ => serial fuel b₁ xs

theorem Serial.of_serial {fuel : Nat} {b b' : Bench} {xs : List Stint}
    (h : b.serial fuel xs = some b') : Serial b xs b' := by
  induction xs generalizing b with
  | nil => cases h; exact .nil _
  | cons x xs ih =>
    obtain ⟨b₁, hx, h⟩ := Option.bind_eq_some_iff.mp h
    exact .cons hx (ih h)

theorem exists_of_serial {b : Bench} (fuel : Nat) (xs : List Stint) {p : Bench → Prop}
    [DecidablePred p] (h : ((b.serial fuel xs).any fun b => p b) = true) :
    ∃ b', Serial b xs b' ∧ p b' := by
  obtain ⟨b', hb, hp⟩ := (Option.any_eq_true _ _).mp h
  exact ⟨b', .of_serial hb, of_decide_eq_true hp⟩

section
variable {b b₁ b₂ b' : Bench} {t : ThreadId} {n fuel fuel' : Nat} {x : Stint} {xs : List Stint}

theorem finish_eq_some_iff : b.finish fuel t = some b₁ ↔
    b₁ = b.runThread fuel t ∧ (b.runThread fuel t).Rests t := by
  unfold finish
  split
  · next h => simp only [h, and_true, Option.some.injEq, eq_comm]
  · next h => simp only [h, and_false, reduceCtorEq]

theorem runThread_unique {m : Nat} (hn : (b.runThread n t).Rests t)
    (hm : (b.runThread m t).Rests t) : b.runThread n t = b.runThread m t := by
  induction n generalizing b m with
  | zero => exact (runThread_of_rests hn m).symm
  | succ n ih =>
    cases m with
    | zero => exact runThread_of_rests hm _
    | succ m =>
      rcases hb : b.act t with _ | b₁
      · simp only [runThread, hb]
      · rw [runThread_succ hb] at hn hm ⊢
        rw [runThread_succ hb]
        exact ih hn hm

theorem stint_unique (h : b.stint fuel x = some b₁) (h' : b.stint fuel' x = some b₂) : b₁ = b₂ := by
  have hfinish {c : Bench} {t : ThreadId} (h : c.finish fuel t = some b₁)
      (h' : c.finish fuel' t = some b₂) : b₁ = b₂ := by
    obtain ⟨rfl, hr⟩ := finish_eq_some_iff.mp h
    obtain ⟨rfl, hr'⟩ := finish_eq_some_iff.mp h'
    exact runThread_unique hr hr'
  cases x with
  | deed step d =>
    simp only [stint] at h h'
    split at h
    · next hf =>
      rw [if_pos hf] at h'
      obtain ⟨c, hc, h⟩ := Option.bind_eq_some_iff.mp h
      obtain ⟨c', hc', h'⟩ := Option.bind_eq_some_iff.mp h'
      rw [hc] at hc'
      cases hc'
      exact hfinish h h'
    · cases h
  | resume step t =>
    simp only [stint] at h h'
    split at h
    · next ht =>
      rw [if_pos ht] at h'
      exact hfinish h h'
    · cases h
  | rouse step t =>
    have h' : b.stint fuel (.rouse step t) = some b₂ := h'
    rw [h] at h'
    cases h'
    rfl
  | tick nanos =>
    have h' : b.stint fuel (.tick nanos) = some b₂ := h'
    rw [h] at h'
    cases h'
    rfl

theorem Serial.unique (h : Serial b xs b₁) (h' : Serial b xs b₂) : b₁ = b₂ := by
  induction h with
  | nil => cases h'; rfl
  | cons hx _ ih =>
    cases h' with
    | cons hx' h' =>
      rw [stint_unique hx' hx] at h'
      exact ih h'

/-! ## Answers stay -/

theorem endings_follow (step : Nat) (course : Course) :
    b.endings <+: (b.follow t step course).endings := by
  unfold follow
  split
  · exact List.prefix_append ..
  · split <;> exact List.prefix_rfl

theorem endings_takeNote (note : Note) : b.endings <+: (b.takeNote t note).endings := by
  cases note with
  | called | event => exact List.prefix_rfl
  | returned o =>
    simp only [takeNote]
    split
    · exact List.prefix_rfl
    · rw [← (restocks_resume b t o _).endings]
      exact endings_follow ..

theorem endings_foldl (notes : List Note) (b : Bench) :
    b.endings <+: (notes.foldl (fun b n => b.takeNote t n) b).endings := by
  induction notes generalizing b with
  | nil => exact List.prefix_rfl
  | cons note notes ih => exact (endings_takeNote note).trans (ih _)

theorem endings_act (h : b.act t = some b₁) : b.endings <+: b₁.endings := by
  obtain ⟨⟨s, notes⟩, -, rfl⟩ := Option.map_eq_some_iff.mp h
  exact endings_foldl notes { b with system := s }

theorem endings_runThread (n : Nat) (b : Bench) (t : ThreadId) :
    b.endings <+: (b.runThread n t).endings := by
  induction n generalizing b with
  | zero => exact List.prefix_rfl
  | succ n ih =>
    unfold runThread
    split
    · exact List.prefix_rfl
    · next hb => exact (endings_act hb).trans (ih _)

theorem endings_stint (h : b.stint fuel x = some b₁) : b.endings <+: b₁.endings := by
  have hfinish {c : Bench} {t : ThreadId} (h : c.finish fuel t = some b₁) :
      c.endings <+: b₁.endings := by
    obtain ⟨rfl, -⟩ := finish_eq_some_iff.mp h
    exact endings_runThread ..
  cases x with
  | deed step d =>
    simp only [stint] at h
    split at h
    · obtain ⟨c, hc, h⟩ := Option.bind_eq_some_iff.mp h
      obtain ⟨-, rfl⟩ := turn_deed_eq_some_iff.mp hc
      rw [← (restocks_start b d).endings]
      exact (endings_follow ..).trans (hfinish h)
    · cases h
  | resume step t =>
    simp only [stint] at h
    split at h
    · exact hfinish h
    · cases h
  | rouse step t =>
    simp only [stint] at h
    split at h
    · obtain ⟨s, -, rfl⟩ := Option.map_eq_some_iff.mp h
      exact List.prefix_rfl
    · cases h
  | tick nanos => cases h; exact List.prefix_rfl

theorem Serial.endings (h : Serial b xs b₁) : b.endings <+: b₁.endings := by
  induction h with
  | nil => exact List.prefix_rfl
  | cons hx _ ih => exact (endings_stint hx).trans ih

/-! ## Between stints -/

/-- A session is behind the bench, and all threads are idle or asleep. -/
structure Settled (b : Bench) : Prop where
  backs : ∃ x, Backs x b
  calm : ∀ t, (b.system.phase t).Calm

theorem Settled.sound (h : b.Settled) (t : ThreadId) : Sound t b := by
  refine ⟨h.backs, ?_, fun u _ => h.calm u⟩
  have hcalm := h.calm t
  refine Bench.allows_act_iff.mpr fun table hp => ?_
  rw [hp] at hcalm
  exact hcalm.elim

theorem Sound.settled (h : Sound t b) (hr : b.Rests t) : b.Settled := by
  refine ⟨h.backs, fun u => ?_⟩
  by_cases hu : u = t
  · rw [hu]
    exact hr.calm
  · exact h.others u hu

theorem Settled.idle (h : b.Settled) (hj : b.job? t = none) : b.system.phase t = .idle := by
  obtain ⟨x, hx⟩ := h.backs
  exact hx.idle hj

theorem Settled.deed (h : b.Settled) {step : Nat} {d : Deed} (hd : d.onFactories)
    (hb : b.turn (.deed step d) = some b₁) : Sound (b.start d).2.1 b₁ := by
  obtain ⟨x, hx⟩ := h.backs
  obtain ⟨hj, he⟩ := turn_deed_eq_some_iff.mp hb
  have hm : Moves (fun _ => True) (fun _ => True) _ _ b b₁ := moves_deed hb (h.idle hj)
  refine ⟨hx.turn (a := .deed step d) hd hb, ?_, fun u hu => ?_⟩
  · rw [he]
    exact (hx.start hd hj).allows step
  · rw [hm.phases u hu]
    exact h.calm u

theorem Sound.finish (h : Sound t b) (hb : b.finish fuel t = some b₁) : b₁.Settled := by
  obtain ⟨rfl, hr⟩ := finish_eq_some_iff.mp hb
  exact (h.runThread fuel).settled hr

/-- **After a stint all threads are idle or asleep.** -/
theorem Settled.stint (h : b.Settled) (hx : x.Plain) (hb : b.stint fuel x = some b₁) :
    b₁.Settled := by
  cases x with
  | deed step d =>
    simp only [Bench.stint] at hb
    split at hb
    · obtain ⟨c, hc, hb⟩ := Option.bind_eq_some_iff.mp hb
      exact (h.deed hx.1 hc).finish hb
    · cases hb
  | resume step t =>
    simp only [Bench.stint] at hb
    split at hb
    · exact (h.sound t).finish hb
    · cases hb
  | rouse step t =>
    simp only [Bench.stint] at hb
    split at hb
    · obtain ⟨x, hx⟩ := h.backs
      refine ⟨hx.turn (a := .rouse t) rfl hb, ?_⟩
      obtain ⟨s, hs, rfl⟩ := Option.map_eq_some_iff.mp hb
      obtain ⟨l, -, rfl⟩ := System.rouse_eq_some_iff.mp hs
      exact h.calm
    · cases hb
  | tick nanos =>
    obtain ⟨x, hx⟩ := h.backs
    refine ⟨hx.turn (a := .tick nanos) rfl hb, ?_⟩
    cases hb
    exact h.calm

theorem settled_start (workers : Nat) : Settled { workers } :=
  ⟨⟨_, backs_start workers⟩, fun _ => trivial⟩

end

end Bench

end Scenario

end KeyedLocks
