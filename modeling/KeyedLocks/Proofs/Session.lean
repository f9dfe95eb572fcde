import Mathlib.Logic.Function.Basic
import KeyedLocks.System

/-!
# Sessions: systems and what their users have in hand

A `Session` is a system together with what its users know from outside. `names` lists the
references to tables in their hands, one for each factory, handle and guard; `deals` is the history
of the holds granted to threads and given back by them. Users may only make calls on tables they
have a name for, and only give locks back through handles they were given (`Session.allows`). A
handle may have been copied, passed to another thread, or used before.

`Session.Reach ok x`: some run, in which `ok` holds of each move, leads from nothing to `x`. What
one move leads to is said once for each kind of move (`of_move_call`, `of_move_act`,
`of_move_rouse`).
-/

namespace KeyedLocks

namespace System

variable {s s' : System} {t : ThreadId}

theorem call_eq_some_iff {c : Call} : s.call t c = some s' ↔
    s.phase t = .idle ∧ s' =
      { s with memory := (c.begin s.now s.memory).1
               phases := s.phases.set t (c.begin s.now s.memory).2 } := by
  unfold call
  split
  · next h => simp only [h, true_and, Option.some.injEq, eq_comm]
  · next h => simp only [h, false_and, reduceCtorEq]

theorem act_eq_some_iff {notes : List Note} : s.act t = some (s', notes) ↔
    ∃ st, (s.phase t).next t s.now s.memory = some st ∧ notes = st.notes ∧
      s' = { s with memory := st.memory, phases := s.phases.set t st.phase } := by
  unfold act
  rw [Option.map_eq_some_iff]
  refine exists_congr fun st => and_congr_right fun _ => ?_
  rw [Prod.mk.injEq, eq_comm, and_comm, @eq_comm _ st.notes]

theorem rouse_eq_some_iff : s.rouse t = some s' ↔
    ∃ l, s.asleepOn t = some l ∧ s' = { s with memory := s.memory.rouse l t } := by
  unfold rouse
  rw [Option.map_eq_some_iff]
  exact exists_congr fun l => and_congr_right fun _ => eq_comm

/-- What is known of each phase, after the phase of one thread was set. -/
theorem phases_set {α : Type} (f : Phase → α) (s : System) (t : ThreadId) (p : Phase) :
    (fun u => f ((s.phases.set t p).get u)) = Function.update (fun u => f (s.phase u)) t (f p) := by
  funext u
  rw [Arena.get_set, Function.update_apply]
  split <;> rfl

end System

/-- A hold that a thread was granted or has given back. -/
structure Deal where
  thread : ThreadId
  handle : Handle
  identifier : String
  granted : Bool
deriving Repr, DecidableEq

/-- Whether the deal is one of `t` on an identifier of a table. -/
def Deal.concerns (d : Deal) (t : ThreadId) (table : TableId) (identifier : String) : Bool :=
  d.thread = t && d.handle.table = table && d.identifier = identifier

/-- The deals of an action that leads thread `me` from `p` to `p'`. A hold is granted when a call
returns it, and given back when a release has got past the unlocking: from there on it cannot
fail. -/
def Phase.deals (me : ThreadId) (m : Memory) (p p' : Phase) (notes : List Note) : List Deal :=
  match p with
  | .releasing h _ .unlock =>
    if p' = .idle then [] else [⟨me, h, (m.lock h.lock).identifier, false⟩]
  | _ => notes.filterMap fun
    | .returned (.obtained h) => some ⟨me, h, (m.lock h.lock).identifier, true⟩
    | _ => none

/-- The names an action brings: a new table, a handle, or one more of a table that has one. -/
def Phase.gains (p : Phase) (notes : List Note) : List TableId :=
  match p with
  | .acting (.retain t) => [t]
  | _ => notes.filterMap fun
    | .returned (.obtained h) => some h.table
    | .returned (.tableMade t) => some t
    | _ => none

/-- The name that users give away with a call. -/
def Call.spends : Call → Option TableId
  | .dropGuard h => some h.table
  | .act (.forgo t) => some t
  | _ => none

/-- A system and what its users have in hand. -/
structure Session where
  system : System := {}
  /-- References to tables, once for each factory, handle and guard. -/
  names : List TableId := []
  /-- Holds granted and given back, latest first. -/
  deals : List Deal := []
deriving DecidableEq

namespace Session

abbrev memory (x : Session) : Memory := x.system.memory

abbrev phase (x : Session) (t : ThreadId) : Phase := x.system.phase t

/-- Some call returned the handle. -/
def issued (x : Session) (h : Handle) : Bool := x.deals.any fun d => d.granted && d.handle = h

/-- Whether users may make a move. -/
def allows (x : Session) : Move → Bool
  | .call _ c =>
    match c with
    | .obtain t _ => t ∈ x.names
    | .release h | .dropGuard h => x.issued h && h.table ∈ x.names
    | .interrupt _ | .act (.clearInterrupt _) | .act (.makeTable ..) => true
    | .act (.retain t) | .act (.forgo t) => t ∈ x.names
    | .act (.tryLock _) | .act (.wake _) | .act (.close _) | .act (.makeLock _) | .take ..
    | .give _ | .lockFor .. | .unlock _ | .checkDeadlock _ => false
  | .act t =>
    match x.phase t with
    | .acting (.retain table) => table ∈ x.names
    | _ => true
  | .rouse _ | .tick _ => true

theorem allows_act_iff {x : Session} {t : ThreadId} : x.allows (.act t) ↔
    ∀ table, x.phase t = .acting (.retain table) → table ∈ x.names := by
  rw [allows]
  split
  · next table hp =>
    rw [decide_eq_true_iff]
    constructor
    · intro ht table' hp'
      rw [hp] at hp'
      cases hp'
      exact ht
    · exact fun h => h table hp
  · next hp => exact ⟨fun _ table h => absurd h (hp table), fun _ => rfl⟩

/-- Make a move and keep the books, if the move is possible. -/
def move (x : Session) : Move → Option Session
  | .call t c => (x.system.call t c).map fun s =>
    { x with system := s, names := c.spends.elim x.names x.names.erase }
  | .act t => (x.system.act t).map fun (s, notes) =>
    { system := s
      names := (x.phase t).gains notes ++ x.names
      deals := (x.phase t).deals t x.memory (s.phase t) notes ++ x.deals }
  | .rouse t => (x.system.rouse t).map fun s => { x with system := s }
  | .tick d => some { x with system := x.system.tick d }

/-- The sessions some run leads to whose moves are all `ok`. -/
inductive Reach (ok : Session → Move → Prop) : Session → Prop where
  | start : Reach ok {}
  | move {x y : Session} {m : Move} : Reach ok x → ok x m → x.move m = some y → Reach ok y

/-- Users do as they may. -/
abbrev Allowed (x : Session) (m : Move) : Prop := x.allows m

/-- Nothing else is asked of a run. -/
abbrev Reachable : Session → Prop := Reach Allowed

/-- Carry out moves as long as they are `ok`. -/
def run (ok : Session → Move → Prop) [∀ x m, Decidable (ok x m)] : Session → List Move →
    Option Session
  | x, [] => some x
  | x, m :: ms => if ok x m then (x.move m).bind fun y => run ok y ms else none

theorem Reach.mono {ok ok' : Session → Move → Prop} (h : ∀ x m, ok x m → ok' x m) {x : Session}
    (hx : Reach ok x) : Reach ok' x := by
  induction hx with
  | start => exact .start
  | move _ hm hy ih => exact .move ih (h _ _ hm) hy

theorem Reach.run {ok : Session → Move → Prop} [∀ x m, Decidable (ok x m)] {x y : Session}
    {ms : List Move} (hx : Reach ok x) (h : run ok x ms = some y) : Reach ok y := by
  induction ms generalizing x with
  | nil => cases h; exact hx
  | cons m ms ih =>
    unfold Session.run at h
    split at h
    · next hm =>
      obtain ⟨z, hz, hr⟩ := Option.bind_eq_some_iff.mp h
      exact ih (.move hx hm hz) hr
    · cases h

/-- What a run leads to is reachable, with whatever was found by carrying it out. -/
theorem exists_of_run {ok : Session → Move → Prop} [∀ x m, Decidable (ok x m)] {ms : List Move}
    {p : Session → Prop} [DecidablePred p] (h : ((run ok {} ms).any fun x => p x) = true) :
    ∃ x, run ok {} ms = some x ∧ Reach ok x ∧ p x := by
  rcases hr : run ok {} ms with _ | x
  · rw [hr] at h
    cases h
  · rw [hr] at h
    exact ⟨x, rfl, .run .start hr, of_decide_eq_true h⟩

/-! ## What a move leads to -/

section
variable {x y : Session} {t : ThreadId}

theorem of_move_call {c : Call} (h : x.move (.call t c) = some y) : x.phase t = .idle ∧ y =
    { x with
      system := { x.system with
        memory := (c.begin x.system.now x.memory).1
        phases := x.system.phases.set t (c.begin x.system.now x.memory).2 }
      names := c.spends.elim x.names x.names.erase } := by
  obtain ⟨s, hs, rfl⟩ := Option.map_eq_some_iff.mp h
  obtain ⟨hi, rfl⟩ := System.call_eq_some_iff.mp hs
  exact ⟨hi, rfl⟩

theorem of_move_act (h : x.move (.act t) = some y) :
    ∃ st, (x.phase t).next t x.system.now x.memory = some st ∧ y =
      { system := { x.system with memory := st.memory, phases := x.system.phases.set t st.phase }
        names := (x.phase t).gains st.notes ++ x.names
        deals := (x.phase t).deals t x.memory st.phase st.notes ++ x.deals } := by
  obtain ⟨⟨s, notes⟩, hs, rfl⟩ := Option.map_eq_some_iff.mp h
  obtain ⟨st, hst, rfl, rfl⟩ := System.act_eq_some_iff.mp hs
  have hp : (x.system.phases.set t st.phase).get t = st.phase := Arena.get_set_self ..
  refine ⟨st, hst, ?_⟩
  simp only [System.phase, hp]

theorem of_move_rouse (h : x.move (.rouse t) = some y) : ∃ l, x.system.asleepOn t = some l ∧
    y = { x with system := { x.system with memory := x.memory.rouse l t } } := by
  obtain ⟨s, hs, rfl⟩ := Option.map_eq_some_iff.mp h
  obtain ⟨l, hl, rfl⟩ := System.rouse_eq_some_iff.mp hs
  exact ⟨l, hl, rfl⟩

/-- Threads that never did anything are idle, so there is an end to the threads one has to look
at. -/
theorem forall_lt_iff (x : Session) {p : ThreadId → Prop} (hp : ∀ t, x.phase t = .idle → p t) :
    (∀ t < x.system.phases.fresh, p t) ↔ ∀ t, p t := by
  constructor
  · intro h t
    rcases Nat.lt_or_ge t x.system.phases.fresh with hf | hf
    · exact h t hf
    · exact hp t (Arena.get_of_fresh_le hf)
  · intro h t _
    exact h t

end

/-! ## The count of holds -/

/-- How often `t` was granted a hold on an identifier of a table. -/
def obtains (x : Session) (t : ThreadId) (table : TableId) (identifier : String) : Nat :=
  x.deals.countP fun d => d.granted && d.concerns t table identifier

/-- How often `t` gave back a hold on an identifier of a table. -/
def releases (x : Session) (t : ThreadId) (table : TableId) (identifier : String) : Nat :=
  x.deals.countP fun d => !d.granted && d.concerns t table identifier

/-- `t` was granted more holds on the identifier than it has given back. -/
def Holds (x : Session) (t : ThreadId) (table : TableId) (identifier : String) : Prop :=
  x.releases t table identifier < x.obtains t table identifier

instance (x : Session) (t : ThreadId) (table : TableId) (identifier : String) :
    Decidable (x.Holds t table identifier) := inferInstanceAs (Decidable (_ < _))

end Session

end KeyedLocks
