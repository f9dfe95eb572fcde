import KeyedLocks.Proofs.Check
import KeyedLocks.Proofs.Lifetime
import KeyedLocks.Proofs.Runs

/-!
# The wait-for graph

`Awaits X w o`: thread `w` is in the queue of a lock that `o` owns. In runs where nobody else moves
while a thread checks for a deadlock and goes on to wait (`Session.Serial`), this graph never has a
cycle (`Session.acyclic_of_serial`). A turn that gives a lock to a thread makes edges to that
thread only, and it is in no queue then (`acyclic_of_sink`). When a thread joins a queue, one edge
leads from it (`acyclic_of_edge`), and the check has just found that no path leads back: every edge
on such a path is one of a live table, so the check has seen it (`transGen_blocks`).
-/

namespace KeyedLocks

open Relation (TransGen ReflTransGen)

/-! ## Graphs without cycles -/

section
variable {α : Type} {R R' : α → α → Prop} {a b : α}

theorem acyclic_of_sink (h : ∀ t, ¬ TransGen R t t) (hn : ∀ o, ¬ R' a o)
    (hs : ∀ {w o}, R' w o → R w o ∨ o = a) (t : α) : ¬ TransGen R' t t := by
  have hpath {x y : α} (hp : TransGen R' x y) : TransGen R x y ∨ y = a := by
    induction hp with
    | single he => exact (hs he).imp_left .single
    | tail _ he ih =>
      rcases ih with ih | rfl
      · exact (hs he).imp_left ih.tail
      · exact absurd he (hn _)
  intro hc
  rcases hpath hc with hr | rfl
  · exact h t hr
  · obtain ⟨o, he, -⟩ := TransGen.head'_iff.mp hc
    exact hn o he

theorem acyclic_of_edge (h : ∀ t, ¬ TransGen R t t) (hn : ¬ ReflTransGen R b a)
    (hs : ∀ {w o}, R' w o → R w o ∨ w = a ∧ o = b) (t : α) : ¬ TransGen R' t t := by
  have hpath {x y : α} (hp : TransGen R' x y) :
      TransGen R x y ∨ ReflTransGen R x a ∧ ReflTransGen R b y := by
    induction hp with
    | single he =>
      rcases hs he with he | ⟨rfl, rfl⟩
      · exact .inl (.single he)
      · exact .inr ⟨.refl, .refl⟩
    | tail _ he ih =>
      rcases hs he with he | ⟨rfl, rfl⟩
      · exact ih.imp (·.tail he) (.imp_right (·.tail he))
      · rcases ih with ih | ⟨hx, -⟩
        · exact .inr ⟨ih.to_reflTransGen, .refl⟩
        · exact .inr ⟨hx, .refl⟩
  intro hc
  rcases hpath hc with hr | ⟨hx, hy⟩
  · exact h t hr
  · exact hn (hy.trans hx)

end

/-! ## Turns -/

/-- `w` is in the queue of a lock that `o` owns. -/
def Awaits (X : LockId → Mutex) (w o : ThreadId) : Prop :=
  ∃ l, w ∈ (X l).waiters ∧ (X l).owner = some o

section
variable {X X' : LockId → Mutex} {q : ThreadId → Option LockId} {me w o : ThreadId} {p p' : Phase}

theorem awaits_update {l : LockId} {x : Mutex} (hw : ∀ w ∈ x.waiters, w ∈ (X l).waiters)
    (ho : ∀ o, x.owner = some o → (X l).owner = some o ∨ o = me)
    (h : Awaits (Function.update X l x) w o) : Awaits X w o ∨ o = me := by
  obtain ⟨j, hj, hjo⟩ := h
  rw [Function.update_apply] at hj hjo
  split at hj
  · next hjl =>
    rw [if_pos hjl] at hjo
    exact (ho o hjo).imp_left (⟨l, hw w hj, ·⟩)
  · next hjl =>
    rw [if_neg hjl] at hjo
    exact .inl ⟨j, hj, hjo⟩

theorem Queues.not_awaits (h : Queues X q) (hme : q me = none) (o : ThreadId) :
    ¬ Awaits X me o := fun ⟨l, hl, _⟩ => h.not_mem hme l hl

/-- **A turn closes no cycle**, unless it joins a queue in spite of a path that leads back. -/
theorem Turn.acyclic (ht : Turn me X p X' p') (hq : Queues X q) (hme : q me = p.queue?)
    (hv : ∀ {e d o}, p = .waiting e d .enter → (X e.lock).owner = some o → o ≠ me →
      ¬ ReflTransGen (Awaits X) o me)
    (h : ∀ t, ¬ TransGen (Awaits X) t t) (t : ThreadId) : ¬ TransGen (Awaits X') t t := by
  have hq' := hq.turn ht hme
  have hsink (hp' : p'.queue? = none) : ∀ o, ¬ Awaits X' me o :=
    hq'.not_awaits (by rw [Function.update_self]; exact hp')
  cases ht with
  | rest => exact h t
  | @take l x _ _ hx _ hp' =>
    have hw (w : ThreadId) (hw : w ∈ x.waiters) : w ∈ (X l).waiters := by
      rw [← Mutex.waiters_of_take? hx]
      exact hw
    have ho (o : ThreadId) (ho : x.owner = some o) : (X l).owner = some o ∨ o = me :=
      .inr (Mutex.eq_of_owner_of_take? hx ho)
    exact acyclic_of_sink h (hsink hp') (awaits_update hw ho) t
  | @release l x _ _ hx _ hp' =>
    have hw (w : ThreadId) (hw : w ∈ x.waiters) : w ∈ (X l).waiters := by
      rw [← Mutex.waiters_of_release? hx]
      exact hw
    have ho (o : ThreadId) (ho : x.owner = some o) : (X l).owner = some o ∨ o = me := by
      rcases Mutex.owner_of_release? hx with hn | he
      · rw [hn] at ho
        cases ho
      · rw [he] at ho
        exact .inl ho
    exact acyclic_of_sink h (hsink hp') (awaits_update hw ho) t
  | @enter e d d' o ho hne =>
    apply acyclic_of_edge h (hv rfl ho hne)
    rintro w o' ⟨j, hj, hjo⟩
    rw [Function.update_apply] at hj hjo
    split at hj
    · next hje =>
      rw [if_pos hje] at hjo
      have hjo : (X e.lock).owner = some o' := hjo
      rcases List.mem_append.mp hj with hj | hj
      · exact .inl ⟨e.lock, hj, hjo⟩
      · rw [ho] at hjo
        exact .inr ⟨List.mem_singleton.mp hj, (Option.some.inj hjo).symm⟩
    · next hje =>
      rw [if_neg hje] at hjo
      exact .inl ⟨j, hj, hjo⟩
  | @leave e d s _ hs hp' =>
    have hw (w : ThreadId) (hw : w ∈ ((X e.lock).leave me).waiters) : w ∈ (X e.lock).waiters :=
      ((mem_leaveQueue (hq.nodup _)).mp hw).1
    exact acyclic_of_sink h (hsink hp') (awaits_update hw fun _ => .inl) t
  | @grab e d s x _ hs hx hp' =>
    have hw (w : ThreadId) (hw : w ∈ (x.leave me).waiters) : w ∈ (X e.lock).waiters := by
      have hw : w ∈ leaveQueue x.waiters me := hw
      rw [Mutex.waiters_of_take? hx] at hw
      exact ((mem_leaveQueue (hq.nodup _)).mp hw).1
    have ho (o : ThreadId) (ho : (x.leave me).owner = some o) :
        (X e.lock).owner = some o ∨ o = me := .inr (Mutex.eq_of_owner_of_take? hx ho)
    exact acyclic_of_sink h (hsink hp') (awaits_update hw ho) t

theorem Turn.vets (ht : Turn me X p X' p') (hw : p'.inWindow) : p.vets := by
  cases ht with
  | rest _ hv => exact hv hw
  | enter => cases hw
  | take _ _ _ hf | release _ _ _ hf | leave _ _ hf | grab _ _ _ hf =>
    rw [hf] at hw
    cases hw

end

/-! ## What the window knows -/

/-- A check in its course is exact, and a thread that goes on to wait closes no cycle. -/
def Phase.Vetted (me : ThreadId) (m : Memory) : Phase → Prop
  | .checking e c => ∃ m₀, c.Exact me e.lock m₀ m
  | .spend a _ => ¬ m.Deadlocked me a.lock
  | .waiting e _ .enter => ¬ m.Deadlocked me e.lock
  | _ => True

theorem Phase.vetted_of_not_inWindow {p : Phase} (hp : p.inWindow = false) (me : ThreadId)
    (m : Memory) : p.Vetted me m := by
  cases p with
  | checking e c =>
    cases c with
    | isLocked => exact ⟨m, .isLocked⟩
    | _ => cases hp
  | spend => cases hp
  | waiting e d s =>
    cases s with
    | enter => cases hp
    | _ => trivial
  | _ => trivial

theorem Phase.Vetted.next {p : Phase} {me : ThreadId} {now : Nat} {m : Memory} {st : Step}
    (hp : p.Vetted me m) (h : p.next me now m = some st) : st.phase.Vetted me st.memory := by
  by_cases hw : st.phase.inWindow
  · have hv := Turn.vets (Phase.next_turns h) hw
    cases p with
    | checking e c =>
      obtain ⟨m₀, hc⟩ := hp
      obtain ⟨⟨m', v⟩, hn, rfl⟩ := Option.map_eq_some_iff.mp h
      cases hc.next hn with
      | more hc' => exact ⟨m₀, hc'⟩
      | passed hd =>
        cases e with
        | attempt a left => exact hd
        | plain l => trivial
      | cycle => trivial
    | spend a left =>
      simp only [Phase.next, Option.some.injEq] at h
      subst h
      unfold Attempt.spend at hw ⊢
      split
      · trivial
      · exact hp
    | _ => cases hv
  · exact vetted_of_not_inWindow (Bool.eq_false_iff.mpr hw) me _

/-! ## Serial runs -/

/-- The thread that takes a step in a move; time passes by itself. -/
def Move.thread? : Move → Option ThreadId
  | .call t _ | .act t | .rouse t => some t
  | .tick _ => none

namespace Session

variable {x y : Session} {t w o : ThreadId}

/-- From the start of a deadlock check until the thread has joined the queue, has taken the lock or
has failed, nobody else takes a step. -/
def Serial (x : Session) (m : Move) : Prop :=
  ∀ t, (x.phase t).inWindow → ∀ u, m.thread? = some u → u = t

/-- Threads that never did anything are in no window. -/
instance (x : Session) (m : Move) : Decidable (x.Serial m) :=
  decidable_of_iff (∀ t < x.system.phases.fresh, (x.phase t).inWindow → ∀ u ∈ m.thread?, u = t) <|
    x.forall_lt_iff <| by
      intro t hi hw
      rw [hi] at hw
      cases hw

/-- Users do as they may, and checks are not disturbed. -/
abbrev Undisturbed (x : Session) (m : Move) : Prop := x.allows m ∧ x.Serial m

/-! ### Queues and edges -/

theorem Reachable.queues (hx : x.Reachable) :
    Queues x.memory.mutexes fun t => (x.phase t).queue? := hx.reached.queues

theorem blocks_of_awaits (hx : x.Reachable) (h : Awaits x.memory.mutexes w o)
    (ho : ∀ l, (x.phase o).stake.inFlight l = 0) : Blocks x.memory.snapshot o w := by
  obtain ⟨l, hw, hl⟩ := h
  obtain ⟨hwf, hord⟩ := hx.orderly
  obtain ⟨e, d, s, hp, rfl⟩ := Phase.waiting_of_queue? (hx.queues.mem_iff.mp hw)
  have hk := hord.knows w
  simp only [hp] at hk
  cases e with
  | plain l => exact hk.elim
  | attempt a left =>
    obtain ⟨table, ht, hh⟩ := hk
    have hheld := Mutex.holdsOf_of_owner (hwf a.lock) hl
    have hacc := hord.account a.lock o
    simp only [ho] at hacc
    have hout : 0 < outstanding x.deals o a.lock := by
      have : 0 < x.memory.holdings.held a.lock o := hheld
      omega
    have hentry := hh.kept (hord.live hout)
    have href : table ∈ (x.phase w).refs := by
      rw [hp]
      show table ∈ a.table.toList
      rw [ht]
      exact List.mem_singleton_self _
    refine Memory.blocks_snapshot.mpr ⟨a.lock, ?_, hl, hw⟩
    exact List.mem_flatMap.mpr ⟨table, hx.referenced.mem_liveTables href,
      List.mem_map_of_mem hentry⟩

theorem inFlight_of_waiting {e : Errand} {d : Option Nat} {s : WaitStage}
    (hp : x.phase t = .waiting e d s) (l : LockId) : (x.phase t).stake.inFlight l = 0 := by
  rw [hp]
  cases e <;> rfl

/-- Every edge on a path to a thread that is about to wait is one the check has seen: the threads on
the path are in queues themselves. -/
theorem transGen_blocks (hx : x.Reachable) (ht : ∀ l, (x.phase t).stake.inFlight l = 0)
    (h : TransGen (Awaits x.memory.mutexes) o t) : TransGen (Blocks x.memory.snapshot) t o := by
  induction h using TransGen.head_induction_on with
  | single he => exact .single (blocks_of_awaits hx he ht)
  | head he hp ih =>
    obtain ⟨_, ⟨l, hl, -⟩, -⟩ := TransGen.head'_iff.mp hp
    obtain ⟨e, d, s, hw, -⟩ := Phase.waiting_of_queue? (hx.queues.mem_iff.mp hl)
    exact ih.tail (blocks_of_awaits hx he (inFlight_of_waiting hw))

/-! ### The invariant -/

/-- Threads in the window know what they rely on, and the graph has no cycle. -/
structure CycleFree (x : Session) : Prop where
  vetted : ∀ t, (x.phase t).Vetted t x.memory
  acyclic : ∀ t, ¬ TransGen (Awaits x.memory.mutexes) t t

theorem vetted_of_serial {m : Move} (hs : x.Serial m) (hm : m.thread? = some t) {u : ThreadId}
    (hu : u ≠ t) (memory : Memory) : (x.phase u).Vetted u memory := by
  by_cases hw : (x.phase u).inWindow
  · exact absurd (hs u hw t hm).symm hu
  · exact Phase.vetted_of_not_inWindow (Bool.eq_false_iff.mpr hw) u memory

theorem CycleFree.call (h : x.CycleFree) {c : Call} (hc : x.allows (.call t c))
    (hs : x.Serial (.call t c)) (hy : x.move (.call t c) = some y) : y.CycleFree := by
  obtain ⟨hi, rfl⟩ := of_move_call hy
  constructor
  · intro u
    show ((x.system.phases.set t (c.begin x.system.now x.memory).2).get u).Vetted u _
    rw [Arena.get_set]
    split
    · apply Phase.vetted_of_not_inWindow
      cases c with
      | lockFor => cases hc
      | _ => rfl
    · next hu => exact vetted_of_serial hs rfl hu _
  · show ∀ t, ¬ TransGen (Awaits (c.begin x.system.now x.memory).1.mutexes) t t
    rw [c.begin_mutexes]
    exact h.acyclic

theorem CycleFree.no_path (h : x.CycleFree) (hx : x.Reachable) {e : Errand} {d : Option Nat}
    (hp : x.phase t = .waiting e d .enter) (ho : (x.memory.mutexes e.lock).owner = some o)
    (hne : o ≠ t) : ¬ ReflTransGen (Awaits x.memory.mutexes) o t := by
  intro hpath
  have hv : (x.phase t).Vetted t x.memory := h.vetted t
  rw [hp] at hv
  rcases Relation.reflTransGen_iff_eq_or_transGen.mp hpath with he | hpath
  · exact hne he.symm
  · have hb : TransGen (Blocks x.memory.snapshot) t o :=
      transGen_blocks hx (inFlight_of_waiting hp) hpath
    exact hv ⟨o, ho, hne, hb⟩

theorem CycleFree.act (h : x.CycleFree) (hx : x.Reachable) (hs : x.Serial (.act t))
    (hy : x.move (.act t) = some y) : y.CycleFree := by
  obtain ⟨st, hst, rfl⟩ := of_move_act hy
  constructor
  · intro u
    show ((x.system.phases.set t st.phase).get u).Vetted u st.memory
    rw [Arena.get_set]
    split
    · next hu =>
      rw [hu]
      exact (h.vetted t).next hst
    · next hu => exact vetted_of_serial hs rfl hu _
  · intro u
    have hturn : Turn t x.memory.mutexes (x.phase t) st.memory.mutexes st.phase :=
      Phase.next_turns hst
    exact hturn.acyclic hx.queues rfl (fun hp ho hne => h.no_path hx hp ho hne) h.acyclic u

theorem CycleFree.rouse (h : x.CycleFree) (hs : x.Serial (.rouse t))
    (hy : x.move (.rouse t) = some y) : y.CycleFree := by
  obtain ⟨l, hl, rfl⟩ := of_move_rouse hy
  constructor
  · intro u
    show (x.phase u).Vetted u (x.memory.rouse l t)
    by_cases hu : u = t
    · apply Phase.vetted_of_not_inWindow
      unfold System.asleepOn at hl
      split at hl
      · next he =>
        rw [hu, phase, he]
        rfl
      · cases hl
    · exact vetted_of_serial hs rfl hu _
  · show ∀ u, ¬ TransGen (Awaits (x.memory.rouse l t).mutexes) u u
    rw [Memory.mutexes_rouse]
    exact h.acyclic

theorem cycleFree_start : CycleFree {} where
  vetted _ := trivial
  acyclic t hc := by
    obtain ⟨o, ⟨l, hl, -⟩, -⟩ := TransGen.head'_iff.mp hc
    cases hl

theorem cycleFree_of_undisturbed (hx : Reach Undisturbed x) : x.CycleFree := by
  induction hx with
  | start => exact cycleFree_start
  | @move x y m hx hm hy ih =>
    have hr : x.Reachable := hx.mono fun _ _ => And.left
    cases m with
    | call t c => exact ih.call hm.1 hm.2 hy
    | act t => exact ih.act hr hm.2 hy
    | rouse t => exact ih.rouse hm.2 hy
    | tick d => cases hy; exact ⟨ih.vetted, ih.acyclic⟩

/-- **No deadlock goes undetected** when checks are not disturbed: no thread waits for itself,
directly or through others. -/
theorem acyclic_of_serial (hx : Reach Undisturbed x) (t : ThreadId) :
    ¬ TransGen (fun w o => ∃ l, w ∈ (x.memory.lock l).mutex.waiters ∧
      (x.memory.lock l).mutex.owner = some o) t t :=
  (cycleFree_of_undisturbed hx).acyclic t

/-- Thread 3 waits for thread 2, which waits for thread 1, on locks of two tables. The name of one
table is gone by the time thread 1 asks for the lock of thread 2 and is refused. -/
def chain : List Move := List.flatten
  [[.call 0 (.act (.makeTable .unbounded false)), .act 0,
      .call 0 (.act (.makeTable .unbounded false)), .act 0,
      .call 1 (.obtain 0 "a"), .act 1, .act 1, .act 1, .act 1,
      .call 2 (.obtain 1 "b"), .act 2, .act 2, .act 2, .act 2,
      .call 2 (.obtain 0 "a")], List.replicate 20 (.act 2),
    [.call 3 (.obtain 1 "b")], List.replicate 19 (.act 3),
    [.call 0 (.act (.forgo 1)), .act 0, .call 1 (.obtain 1 "b")], List.replicate 26 (.act 1)]

theorem acyclic_of_serial_chain : ∃ x, run Undisturbed {} chain = some x ∧
    (x.memory.lock 1).mutex = { owner := some 2, holds := 1, waiters := [3] } ∧
    (x.memory.lock 0).mutex = { owner := some 1, holds := 1, waiters := [2] } ∧
    x.phase 1 = .idle ∧
    ∀ t, ¬ TransGen (fun w o => ∃ l, w ∈ (x.memory.lock l).mutex.waiters ∧
      (x.memory.lock l).mutex.owner = some o) t t := by
  have hx : ∃ x, run Undisturbed {} chain = some x ∧ Reach Undisturbed x ∧
      (x.memory.lock 1).mutex = { owner := some 2, holds := 1, waiters := [3] } ∧
      (x.memory.lock 0).mutex = { owner := some 1, holds := 1, waiters := [2] } ∧
      x.phase 1 = .idle := exists_of_run (by decide +kernel)
  obtain ⟨x, hr, hx, h₁, h₀, hp⟩ := hx
  exact ⟨x, hr, h₁, h₀, hp, fun t => acyclic_of_serial hx t⟩

end Session

end KeyedLocks
