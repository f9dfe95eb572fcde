import KeyedLocks.Proofs.Queue
import KeyedLocks.Proofs.Registration
import KeyedLocks.Proofs.Session
import KeyedLocks.Proofs.Shift

/-!
# Runs

`System.Reached s`: some moves lead from nothing to `s`. Nothing is asked of these moves, so threads
may also work on locks by themselves, and on those of a table without asking it. What a move does is
said once for all of them (`System.Moved`), and what all moves keep holds of what they reach
(`Reached.induct`). `During t c s₀` and `Returns t c s₀ o` follow one call of a thread while all the
others do what they like. `Session.Leads ok x` chains moves from a session on.
-/

namespace KeyedLocks

theorem Call.begin_locks (c : Call) (now : Nat) (m : Memory) :
    (c.begin now m).1.locks = m.locks := by
  cases c <;> rfl

theorem Call.begin_mutexes (c : Call) (now : Nat) (m : Memory) :
    (c.begin now m).1.mutexes = m.mutexes := by
  cases c <;> rfl

theorem Call.begin_interrupted (c : Call) (now : Nat) (m : Memory) :
    (c.begin now m).1.interrupted = m.interrupted := by
  cases c <;> rfl

theorem Call.begin_holdings (c : Call) (now : Nat) (m : Memory) :
    (c.begin now m).1.holdings = m.holdings := by
  cases c with
  | obtain | release => exact Memory.holdings_retain
  | dropGuard | take | give | lockFor | unlock | checkDeadlock | interrupt | act => rfl

theorem Step.returned_of_emit {st : Step} {e : Event} {o : Outcome}
    (h : .returned o ∈ (st.emit e).notes) : .returned o ∈ st.notes := by
  rcases List.mem_cons.mp h with h | h
  · cases h
  · exact h

/-! ## Holds and actions of others -/

namespace Holdings

variable {H : Holdings} {t : ThreadId}

theorem held_addLock (hf : H.held H.fresh t = 0) (identifier : String) (l : LockId) :
    (H.addLock identifier).held l t = H.held l t := by
  simp only [addLock]
  split
  · next h => rw [h, hf]
  · rfl

theorem held_create (hf : H.held H.fresh t = 0) (table : TableId) (identifier : String)
    (l : LockId) : (H.create table identifier).held l t = H.held l t :=
  held_addLock hf identifier l

end Holdings

theorem Shift.held_of_ne {me t : ThreadId} {H H' : Holdings} {p p' : Stake} {ds : List Deal}
    (h : Shift me H p ds H' p') (ht : t ≠ me) (hf : H.held H.fresh t = 0)
    (l : LockId) : H'.held l t = H.held l t := by
  cases h with
  | create => exact Holdings.held_create hf ..
  | rawMake => exact Holdings.held_addLock hf ..
  | take | probe | rawTake => exact H.held_add_of_ne fun h => ht h.2
  | backOut | unlock | unprobe | rawRelease => exact H.held_sub_of_ne fun h => ht h.2
  | discard | remove => rw [Holdings.held_remove]
  | _ => rfl

namespace System

variable {s s' s₀ : System} {t u : ThreadId} {c : Call} {o : Outcome} {l : LockId}

/-- The system after an action of `me`. -/
def after (s : System) (me : ThreadId) (st : Step) : System :=
  { s with memory := st.memory, phases := s.phases.set me st.phase }

@[simp] theorem phase_after (s : System) (me : ThreadId) (st : Step) :
    (s.after me st).phase me = st.phase := Arena.get_set_self ..

theorem phase_after_of_ne (s : System) (me : ThreadId) (st : Step) (h : t ≠ me) :
    (s.after me st).phase t = s.phase t := Arena.get_set_ne _ _ h

theorem phase_after_eq (s : System) (me : ThreadId) (st : Step) :
    (s.after me st).phase = Function.update s.phase me st.phase := phases_set id s me st.phase

theorem after_after (s : System) (me : ThreadId) (st st' : Step) :
    (s.after me st).after me st' = s.after me st' := by
  simp only [after, Arena.set_set]

/-! ## Moves -/

/-- What a move does. -/
inductive Moved (s : System) : Move → System → Prop where
  | call {t : ThreadId} {c : Call} : s.phase t = .idle → Moved s (.call t c)
      (s.after t (.moveTo (c.begin s.now s.memory).1 (c.begin s.now s.memory).2))
  | act {t : ThreadId} {st : Step} : (s.phase t).next t s.now s.memory = some st →
      Moved s (.act t) (s.after t st)
  | rouse {t : ThreadId} {l : LockId} : s.asleepOn t = some l →
      Moved s (.rouse t) { s with memory := s.memory.rouse l t }
  | tick {d : Nat} : Moved s (.tick d) (s.tick d)

theorem moved {m : Move} {ns : List (ThreadId × Note)} (h : s.move m = some (s', ns)) :
    s.Moved m s' := by
  cases m with
  | call t c =>
    obtain ⟨s₁, hs, he⟩ := Option.map_eq_some_iff.mp h
    obtain ⟨hi, rfl⟩ := call_eq_some_iff.mp hs
    cases he
    exact .call hi
  | act t =>
    obtain ⟨⟨s₁, notes⟩, hs, he⟩ := Option.map_eq_some_iff.mp h
    obtain ⟨st, hst, rfl, rfl⟩ := act_eq_some_iff.mp hs
    cases he
    exact .act hst
  | rouse t =>
    obtain ⟨s₁, hs, he⟩ := Option.map_eq_some_iff.mp h
    obtain ⟨l, hl, rfl⟩ := rouse_eq_some_iff.mp hs
    cases he
    exact .rouse hl
  | tick d => cases h; exact .tick

theorem move_of_call (h : s.call t c = some s') :
    s.move (.call t c) = some (s', [(t, .called c)]) :=
  Option.map_eq_some_iff.mpr ⟨s', h, rfl⟩

theorem move_of_act {notes : List Note} (h : s.act t = some (s', notes)) :
    s.move (.act t) = some (s', notes.map (t, ·)) :=
  Option.map_eq_some_iff.mpr ⟨(s', notes), h, rfl⟩

theorem phase_of_call (h : s.call t c = some s') : s'.phase t = (c.begin s.now s.memory).2 := by
  obtain ⟨-, rfl⟩ := call_eq_some_iff.mp h
  exact Arena.get_set_self ..

theorem phase_of_moved {m : Move} (hm : s.Moved m s') (hi : s.phase t ≠ .idle)
    (ha : m ≠ .act t) : s'.phase t = s.phase t := by
  cases hm with
  | @call u c hu =>
    apply phase_after_of_ne
    rintro rfl
    exact hi hu
  | @act u st =>
    apply phase_after_of_ne
    rintro rfl
    exact ha rfl
  | rouse | tick => rfl

theorem Moved.phase_eq_or {m : Move} (hm : s.Moved m s') (ha : m ≠ .act t) :
    s'.phase t = s.phase t ∨ ∃ c, m = .call t c ∧ s.phase t = .idle ∧
      s'.phase t = (c.begin s.now s.memory).2 := by
  by_cases hi : s.phase t = .idle
  · cases hm with
    | @call u c =>
      by_cases htu : t = u
      · subst htu
        exact .inr ⟨c, rfl, hi, phase_after ..⟩
      · exact .inl (phase_after_of_ne _ _ _ htu)
    | @act u st =>
      refine .inl (phase_after_of_ne _ _ _ ?_)
      rintro rfl
      exact ha rfl
    | rouse | tick => exact .inl rfl
  · exact .inl (phase_of_moved hm hi ha)

theorem asleepOn_eq_some_iff {l : LockId} : s.asleepOn t = some l ↔
    ∃ e d, s.phase t = .waiting e d .asleep ∧ e.lock = l ∧ t ∈ (s.memory.lock l).sleepers := by
  unfold asleepOn
  split
  · next e d hp =>
    constructor
    · intro h
      split at h
      · next hs => cases h; exact ⟨e, d, hp, rfl, hs⟩
      · cases h
    · rintro ⟨e', d', he, rfl, hs⟩
      rw [hp] at he
      cases he
      exact if_pos hs
  · next hp =>
    constructor
    · exact nofun
    · rintro ⟨e, d, he, -⟩
      exact absurd he (hp e d)

/-! ## What is reached -/

/-- Some moves lead from nothing to `s`. -/
def Reached (s : System) : Prop := ∃ ms ns, Steps {} ms ns s

namespace Reached

theorem start : Reached {} := ⟨[], [], .nil _⟩

theorem move (h : s.Reached) {m : Move} {ns : List (ThreadId × Note)}
    (hm : s.move m = some (s', ns)) : s'.Reached := by
  obtain ⟨ms, ns₀, hs⟩ := h
  exact ⟨_, _, hs.append (.cons hm (.nil _))⟩

/-- What a run leads to is reached, with whatever was found by carrying it out. -/
theorem exists_of_run {ms : List Move} {p : System → Prop} [DecidablePred p]
    (h : ((run {} ms).any fun (s, _) => p s) = true) :
    ∃ s ns, run {} ms = some (s, ns) ∧ s.Reached ∧ p s := by
  rcases hr : run {} ms with _ | ⟨s, ns⟩
  · rw [hr] at h
    cases h
  · rw [hr] at h
    exact ⟨s, ns, rfl, ⟨ms, ns, run_eq_some_iff.mp hr⟩, of_decide_eq_true h⟩

/-- What holds at the start and is kept by every move holds of all that is reached. -/
theorem induct {p : System → Prop} (start : p {})
    (step : ∀ {s s' m}, s.Reached → p s → s.Moved m s' → p s') (h : s.Reached) : p s := by
  obtain ⟨ms, ns, hs⟩ := h
  suffices hall : ∀ {s₁ s₂ ms ns}, Steps s₁ ms ns s₂ → s₁.Reached → p s₁ → p s₂ from
    hall hs .start start
  intro s₁ s₂ ms ns hs
  induction hs with
  | nil => exact fun _ hp => hp
  | cons hm _ ih => exact fun hr hp => ih (hr.move hm) (step hr hp (moved hm))

theorem wf (h : s.Reached) : s.memory.Wf := by
  refine h.induct (p := fun s => s.memory.Wf) (fun _ => Mutex.wf_default) ?_
  intro s s' m _ hw hm
  cases hm with
  | @call t c =>
    intro l
    show (((c.begin s.now s.memory).1.locks.get l).mutex).Wf
    rw [c.begin_locks]
    exact hw l
  | act hst =>
    obtain ⟨_, -, hs⟩ := Phase.next_shifts hw hst
    exact hs.1
  | rouse => exact (hw.shows.rouse).1
  | tick => exact hw

theorem queues (h : s.Reached) : Queues s.memory.mutexes fun t => (s.phase t).queue? := by
  refine h.induct (p := fun s => Queues s.memory.mutexes fun t => (s.phase t).queue?)
    ⟨fun _ => List.nodup_nil, ⟨nofun, nofun⟩⟩ ?_
  intro s s' m _ hq hm
  cases hm with
  | @call t c hi =>
    have hp : (c.begin s.now s.memory).2.queue? = (s.phase t).queue? := by
      rw [hi]
      cases c <;> rfl
    show Queues (c.begin s.now s.memory).1.mutexes fun u => ((s.phases.set t _).get u).queue?
    rw [phases_set]
    show Queues _ (Function.update _ t (c.begin s.now s.memory).2.queue?)
    rw [hp, Function.update_eq_self, c.begin_mutexes]
    exact hq
  | @act t st hst =>
    show Queues st.memory.mutexes fun u => ((s.phases.set t st.phase).get u).queue?
    rw [phases_set]
    exact hq.turn (Phase.next_turns hst) rfl
  | rouse =>
    show Queues (s.memory.rouse _ _).mutexes _
    rw [Memory.mutexes_rouse]
    exact hq
  | tick => exact hq

end Reached

/-! ## The holds of one thread -/

/-- The holds of a thread on a lock. -/
def holdsOf (s : System) (t : ThreadId) (l : LockId) : Nat := (s.memory.lock l).mutex.holdsOf t

theorem held_fresh (m : Memory) (t : ThreadId) : m.holdings.held m.holdings.fresh t = 0 := by
  have hd : m.lock m.locks.fresh = default := Arena.get_of_fresh_le (Nat.le_refl _)
  show (m.lock m.locks.fresh).mutex.holdsOf t = 0
  rw [hd]
  rfl

theorem holdings_of_moved (hs : s.Reached) {m : Move} (hm : s.Moved m s') :
    ∃ H, H.Grows s'.memory.holdings ∧ (H = s.memory.holdings ∨
      ∃ u p ds p', m = .act u ∧ Shift u s.memory.holdings p ds H p') := by
  cases hm with
  | @call u c =>
    refine ⟨s.memory.holdings, ?_, .inl rfl⟩
    show Holdings.Grows _ (c.begin s.now s.memory).1.holdings
    rw [c.begin_holdings]
    exact .refl _
  | @act u st hst =>
    obtain ⟨H, hsh, hm⟩ := Phase.next_shifts hs.wf hst
    exact ⟨H, hm.2, .inr ⟨u, _, _, _, rfl, hsh⟩⟩
  | rouse => exact ⟨_, hs.wf.shows.rouse.2, .inl rfl⟩
  | tick => exact ⟨_, .refl _, .inl rfl⟩

theorem holdsOf_of_moved (hs : s.Reached) {m : Move} (hm : s.Moved m s') (ha : m ≠ .act t) :
    s'.holdsOf t l = s.holdsOf t l := by
  obtain ⟨H, ⟨-, hg⟩, hH⟩ := holdings_of_moved hs hm
  show s'.memory.holdings.held l t = s.memory.holdings.held l t
  rw [hg]
  rcases hH with rfl | ⟨u, p, ds, p', rfl, hsh⟩
  · rfl
  · exact hsh.held_of_ne (fun h => ha (h ▸ rfl)) (held_fresh ..) l

theorem Reached.owner_iff (h : s.Reached) :
    (s.memory.lock l).mutex.owner = some t ↔ 0 < s.holdsOf t l :=
  ⟨Mutex.holdsOf_of_owner (h.wf l), Mutex.owner_of_holdsOf⟩

/-! ## One call -/

/-- Thread `t` made the call `c` in `s₀` and is still at it; others do what they like. -/
inductive During (t : ThreadId) (c : Call) (s₀ : System) : System → Prop where
  | call {s : System} : s₀.call t c = some s → During t c s₀ s
  | move {s s' : System} {m : Move} {ns : List (ThreadId × Note)} : During t c s₀ s →
      s.move m = some (s', ns) → s'.phase t ≠ .idle → During t c s₀ s'

/-- The call that `t` made in `s₀` returned `o`, which led to `s`. -/
def Returns (t : ThreadId) (c : Call) (s₀ : System) (o : Outcome) (s : System) : Prop :=
  ∃ s₁ notes, During t c s₀ s₁ ∧ s₁.act t = some (s, notes) ∧ .returned o ∈ notes

/-- Carry out moves as long as `t` is not idle. -/
def runBusy (t : ThreadId) : System → List Move → Option System
  | s, [] => some s
  | s, m :: ms => (s.move m).bind fun (s', _) =>
    if s'.phase t = .idle then none else runBusy t s' ms

theorem runBusy_cons {m : Move} {ms : List Move} {ns : List (ThreadId × Note)}
    (hm : s.move m = some (s', ns)) (hp : s'.phase t ≠ .idle) :
    runBusy t s (m :: ms) = runBusy t s' ms := by
  rw [runBusy, hm, Option.bind_some]
  exact if_neg hp

theorem During.run (h : During t c s₀ s) {ms : List Move} (hr : runBusy t s ms = some s') :
    During t c s₀ s' := by
  induction ms generalizing s with
  | nil => cases hr; exact h
  | cons m ms ih =>
    obtain ⟨⟨s₁, ns⟩, hm, hr⟩ := Option.bind_eq_some_iff.mp hr
    dsimp only at hr
    split at hr
    · cases hr
    · next hp => exact ih (h.move hm hp) hr

/-- Make a call, carry out moves as long as `t` is at it, and let `t` act once more. -/
def runCall (t : ThreadId) (c : Call) (s : System) (ms : List Move) :
    Option (System × List Note) :=
  (s.call t c).bind fun s => (runBusy t s ms).bind (act · t)

theorem returns_of_runCall {ms : List Move} {notes : List Note}
    (h : runCall t c s₀ ms = some (s, notes)) (ho : .returned o ∈ notes) :
    Returns t c s₀ o s := by
  obtain ⟨s₁, hc, h⟩ := Option.bind_eq_some_iff.mp h
  obtain ⟨s₂, hr, hact⟩ := Option.bind_eq_some_iff.mp h
  exact ⟨s₂, notes, (During.call hc).run hr, hact, ho⟩

theorem During.reached (h : During t c s₀ s) (h₀ : s₀.Reached) : s.Reached := by
  induction h with
  | call hc => exact h₀.move (move_of_call hc)
  | move _ hm _ ih => exact ih.move hm

end System

/-! ## Sessions -/

namespace Session

variable {x y z : Session} {ok ok' : Session → Move → Prop}

theorem system_move {m : Move} (h : x.move m = some y) :
    ∃ ns, x.system.move m = some (y.system, ns) := by
  cases m with
  | call t c =>
    obtain ⟨s, hs, rfl⟩ := Option.map_eq_some_iff.mp h
    exact ⟨_, Option.map_eq_some_iff.mpr ⟨s, hs, rfl⟩⟩
  | act t =>
    obtain ⟨⟨s, notes⟩, hs, rfl⟩ := Option.map_eq_some_iff.mp h
    exact ⟨_, Option.map_eq_some_iff.mpr ⟨(s, notes), hs, rfl⟩⟩
  | rouse t =>
    obtain ⟨s, hs, rfl⟩ := Option.map_eq_some_iff.mp h
    exact ⟨_, Option.map_eq_some_iff.mpr ⟨s, hs, rfl⟩⟩
  | tick d => cases h; exact ⟨_, rfl⟩

theorem moved {m : Move} (h : x.move m = some y) : x.system.Moved m y.system := by
  obtain ⟨ns, hs⟩ := system_move h
  exact System.moved hs

theorem Reach.reached (hx : Reach ok x) : x.system.Reached := by
  induction hx with
  | start => exact .start
  | move _ _ hy ih =>
    obtain ⟨ns, hs⟩ := system_move hy
    exact ih.move hs

/-- Moves that are all `ok` lead from `x` on. -/
inductive Leads (ok : Session → Move → Prop) (x : Session) : Session → Prop where
  | refl : Leads ok x x
  | move {y z : Session} {m : Move} : Leads ok x y → ok y m → y.move m = some z → Leads ok x z

theorem Leads.mono (h : ∀ x m, ok x m → ok' x m) (hy : Leads ok x y) : Leads ok' x y := by
  induction hy with
  | refl => exact .refl
  | move _ hm hz ih => exact .move ih (h _ _ hm) hz

theorem Leads.reach (hy : Leads ok x y) (hx : Reach ok x) : Reach ok y := by
  induction hy with
  | refl => exact hx
  | move _ hm hz ih => exact .move ih hm hz

theorem Leads.run [∀ x m, Decidable (ok x m)] (hy : Leads ok x y) {ms : List Move}
    (h : run ok y ms = some z) : Leads ok x z := by
  induction ms generalizing y with
  | nil => cases h; exact hy
  | cons m ms ih =>
    unfold Session.run at h
    split at h
    · next hm =>
      obtain ⟨w, hw, hr⟩ := Option.bind_eq_some_iff.mp h
      exact ih (hy.move hm hw) hr
    · cases h

end Session

end KeyedLocks
