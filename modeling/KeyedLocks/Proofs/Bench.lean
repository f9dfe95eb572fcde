import KeyedLocks.Proofs.Stations
import KeyedLocks.Scenario.Report

/-!
# Sessions behind benches

A `Bench.Turn` is what may happen next on a bench: an idle thread starts a deed, a thread acts, a
sleeping one is roused, or time passes. `Plays` chains turns of users of factories: they leave the
locks alone that no factory hands out, and nobody clones an object that is given up meanwhile
(`Bench.allows`).

`Backs x b` says that the session `x` is behind the bench: the names in its hands are those of the
objects in the slots, one for one, and each job fits the phase of its thread. `Plays.backs` says
that there is one behind every bench that users of factories play.
-/

namespace KeyedLocks

/-! ## Calls that bring no name -/

/-- The thread gives something back or deals with flags. -/
def Phase.renders : Phase → Bool
  | .releasing .. | .interrupting .. | .acting (.forgo _) | .acting (.clearInterrupt _) => true
  | _ => false

/-- The thread may be given a table or a handle. -/
def Phase.asks : Phase → Bool
  | .acting (.makeTable ..) => true
  | p => p.pursues

section
variable {me : ThreadId} {now : Nat} {m : Memory} {p : Phase} {st : Step}

theorem Phase.next_of_renders (hp : p.renders) (h : p.next me now m = some st) :
    st.phase.renders ∨ st.phase = .idle ∧ ∀ o ∈ st.answers, o.gain? = none := by
  cases next_acts h with
  | refuse | refuseGuard | yield | unprobe | unprobeFails | disposed | requested | cleared
  | forgo => exact .inr ⟨rfl, fun o ho => by cases List.mem_singleton.mp ho; rfl⟩
  | unlock | unlockLast | notify | probe | alone | inUse | close | remove | replaced | unprobeLast
  | raise | seek | listLocks | inspected | spot | passOver | wake => exact .inl rfl
  | _ => cases hp

theorem Phase.asks_iff :
    p.asks ↔ p.pursues ∨ ∃ policy unlimited, p = .acting (.makeTable policy unlimited) := by
  unfold asks
  split
  · next policy unlimited => exact ⟨fun _ => .inr ⟨policy, unlimited, rfl⟩, fun _ => rfl⟩
  · next hn =>
    refine ⟨.inl, fun h => h.resolve_right ?_⟩
    rintro ⟨policy, unlimited, rfl⟩
    exact hn policy unlimited rfl

theorem Phase.next_of_asks (hp : p.asks) (h : p.next me now m = some st) :
    st.phase.asks ∨ st.phase = .idle := by
  rcases Phase.asks_iff.mp hp with hp | ⟨policy, unlimited, rfl⟩
  · exact (Phase.next_of_pursues hp h).imp (fun hs => Phase.asks_iff.mpr (.inl hs.1)) id
  · have hrun : (Action.makeTable policy unlimited).run me m = some st := h
    exact .inr (Action.phase_of_run hrun)

end

namespace Scenario

/-! ## Turns -/

/-- The table an object refers to. -/
def Object.table? : Object → Option TableId
  | .table t => some t
  | .handle h | .guard h => some h.table
  | .lock _ => none

def Object.handle? : Object → Option Handle
  | .handle h | .guard h => some h
  | .table _ | .lock _ => none

/-- The command works through factories and what they hand out. -/
def Command.onFactories : Command → Bool
  | .newMutex _ | .newEntry .. | .grabEntry .. | .closeEntry _ | .sameEntry .. | .wake _ => false
  | .factory .. | .cloneFactory .. | .dropFactory _ | .liveFactories | .activeLocks _ | .isLocked ..
  | .queueLength .. | .factoryPolicy _ | .cloneHandle .. | .dropHandle _ | .interrupt _
  | .isInterrupted _ | .clearInterruptFor _ | .settle => true

/-- The task works through factories and what they hand out, one call after the other. -/
def Task.onFactories : Task → Bool
  | .obtain .. | .guard .. | .intoGuard .. | .dropGuard _ | .guardState _ | .handleState _
  | .release _ | .clearInterrupt => true
  | .within .. | .tryLock _ | .tryLockFor .. | .unlock _ | .mutexState _ | .entryLock ..
  | .entryUnlock _ | .entryState _ | .checkDeadlock _ => false

def Deed.onFactories : Deed → Bool
  | .command c => c.onFactories
  | .task _ t => t.onFactories
  | .unknown _ => true

namespace Bench

/-- What may happen next. -/
inductive Turn where
  /-- Somebody who is not at work starts a deed, as the step of this number. -/
  | deed (step : Nat) (d : Deed)
  | act (t : ThreadId)
  | rouse (t : ThreadId)
  | tick (nanos : Nat)

def turn (b : Bench) : Turn → Option Bench
  | .deed step d =>
    let (b', t, course) := b.start d
    if (b.job? t).isNone then some (b'.follow t step course) else none
  | .act t => b.act t
  | .rouse t => (b.system.rouse t).map fun system => { b with system }
  | .tick nanos => some { b with system := b.system.tick nanos }

/-- The tables the objects refer to, once for each object. -/
def tables (b : Bench) : List TableId := b.slots.filterMap (·.2.table?)

/-- Whether users of factories may take a turn. -/
def allows (b : Bench) : Turn → Bool
  | .deed _ d => d.onFactories
  | .act t =>
    match b.system.phase t with
    | .acting (.retain table) => table ∈ b.tables
    | _ => true
  | .rouse _ | .tick _ => true

theorem allows_act_iff {b : Bench} {t : ThreadId} : b.allows (.act t) ↔
    ∀ table, b.system.phase t = .acting (.retain table) → table ∈ b.tables := by
  rw [allows]
  split
  · next table hp =>
    rw [decide_eq_true_iff]
    constructor
    · intro ht table' hp'
      rw [hp] at hp'
      cases hp'
      exact ht
    · exact fun h => h table hp
  · next hp => exact ⟨fun _ table h => absurd h (hp table), fun _ => rfl⟩

/-- Turns of users of factories lead from `b` on. -/
inductive Plays (b : Bench) : Bench → Prop where
  | refl : Plays b b
  | turn {b' b'' : Bench} {x : Turn} : Plays b b' → b'.allows x → b'.turn x = some b'' → Plays b b''

/-- Take turns as long as users of factories may. -/
def play : Bench → List Turn → Option Bench
  | b, [] => some b
  | b, x :: xs => if b.allows x then (b.turn x).bind fun b => b.play xs else none

theorem Plays.of_play {b b' b'' : Bench} {xs : List Turn} (h : b.Plays b')
    (hp : b'.play xs = some b'') : b.Plays b'' := by
  induction xs generalizing b' with
  | nil => cases hp; exact h
  | cons x xs ih =>
    unfold play at hp
    split at hp
    · next ha =>
      obtain ⟨c, hc, hp⟩ := Option.bind_eq_some_iff.mp hp
      exact ih (h.turn ha hc) hp
    · cases hp

theorem exists_of_play {b : Bench} (xs : List Turn) {p : Bench → Prop} [DecidablePred p]
    (h : ((b.play xs).any fun b => p b) = true) : ∃ b', b.Plays b' ∧ p b' := by
  obtain ⟨b', hb, hp⟩ := (Option.any_eq_true _ _).mp h
  exact ⟨b', Plays.of_play .refl hb, of_decide_eq_true hp⟩

end Bench

/-! ## Lists of pairs -/

section
variable {α β : Type} [DecidableEq α] {es : List (α × β)}

theorem lookup_without (es : List (α × β)) (k j : α) :
    (es.filter (·.1 ≠ k)).lookup j = if j = k then none else es.lookup j := by
  induction es with
  | nil => exact (ite_self _).symm
  | cons e es ih =>
    rw [List.filter_cons]
    by_cases he : e.1 = k
    · rw [if_neg (by simpa using he), ih, List.lookup_cons]
      split
      · rfl
      · next hj => rw [beq_false_of_ne (he ▸ hj)]
    · rw [if_pos (by simpa using he), List.lookup_cons, List.lookup_cons, ih]
      by_cases hj : j = e.1
      · subst hj
        simp only [beq_self_eq_true, he, if_false]
      · rw [beq_false_of_ne hj]

/-- What is taken out under a key is all there is under it. -/
theorem count_filterMap_without {γ : Type} [DecidableEq γ] (hn : (es.map (·.1)).Nodup)
    (f : β → Option γ) (k : α) (c : γ) :
    ((es.filter (·.1 ≠ k)).filterMap (fun e => f e.2)).count c +
      ((es.lookup k).bind f).toList.count c = (es.filterMap fun e => f e.2).count c := by
  induction es with
  | nil => rfl
  | cons e es ih =>
    rw [List.map_cons, List.nodup_cons] at hn
    have hcons (l : List (α × β)) : ((e :: l).filterMap fun e => f e.2).count c =
        (f e.2).toList.count c + (l.filterMap fun e => f e.2).count c := by
      rw [List.filterMap_cons]
      cases f e.2 with
      | none => exact (Nat.zero_add _).symm
      | some g =>
        show ([g] ++ l.filterMap fun e => f e.2).count c = _
        rw [List.count_append]
        rfl
    rw [List.filter_cons, List.lookup_cons, hcons es]
    by_cases he : e.1 = k
    · have hnone : es.filter (·.1 ≠ k) = es := by
        rw [List.filter_eq_self]
        intro d hd
        refine decide_eq_true fun hk => hn.1 ?_
        rw [he, ← hk]
        exact List.mem_map_of_mem hd
      rw [if_neg (by simpa using he), hnone, he, beq_self_eq_true, Nat.add_comm]
      rfl
    · rw [if_pos (by simpa using he), hcons, beq_false_of_ne (Ne.symm he), Nat.add_assoc,
        ih hn.2]

end

/-! ## Sessions behind benches -/

/-- What a job may be about while its thread is in a phase. -/
def Progress.Fits (x : Session) : Progress → Phase → Prop
  | .outcome, p | .answer _, p => p.renders
  | .store _, p => p.asks
  | .bind _ o, p => ∃ table, p = .acting (.retain table) ∧ o.table? = some table ∧
      ∀ h, o.handle? = some h → x.issued h
  | .climb .., _ | .descend .., _ | .dismiss .., _ => False

theorem Progress.Fits.mono {x y : Session} {p : Progress} {phase : Phase}
    (h : p.Fits x phase) (hi : ∀ h, x.issued h → y.issued h) : p.Fits y phase := by
  cases p with
  | bind slot o =>
    obtain ⟨table, hp, ht, ho⟩ := h
    exact ⟨table, hp, ht, fun g hg => hi g (ho g hg)⟩
  | _ => exact h

/-- The names that are given away with a course. -/
def Course.spends : Course → List TableId
  | .call c _ => c.spends.toList
  | .answer _ => []

namespace Bench

/-- Thread `t` is at work if it has a job, and then its phase is one of that job. -/
def Minds (b : Bench) (x : Session) (t : ThreadId) : Prop :=
  match b.job? t with
  | none => x.phase t = .idle
  | some job => x.phase t ≠ .idle ∧ job.progress.Fits x (x.phase t)

/-- The objects in the slots are those that the users of `x` have. -/
structure Stocked (x : Session) (b : Bench) : Prop where
  system : b.system = x.system
  reachable : x.Reachable
  keys : (b.slots.map (·.1)).Nodup
  issued : ∀ e ∈ b.slots, ∀ h, e.2.handle? = some h → x.issued h

/-- The session `x` is behind the bench. -/
structure Backs (x : Session) (b : Bench) : Prop extends Stocked x b where
  jobs : ∀ t, b.Minds x t
  names : ∀ table, x.names.count table = b.tables.count table

/-- The session is behind the bench, whose thread `t` has an object in its hands. -/
structure Lends (x : Session) (b : Bench) (t : ThreadId) (o : Option Object) : Prop extends
    Stocked x b where
  idle : x.phase t = .idle
  others : ∀ u, u ≠ t → b.Minds x u
  names : ∀ table, x.names.count table = b.tables.count table +
    (o.bind Object.table?).toList.count table
  object : ∀ h, o.bind Object.handle? = some h → x.issued h

/-- The session is behind the bench, whose thread `t` is about to take a course. -/
structure Ready (x : Session) (b : Bench) (t : ThreadId) (course : Course) : Prop extends
    Stocked x b where
  idle : x.phase t = .idle
  others : ∀ u, u ≠ t → b.Minds x u
  names : ∀ table, x.names.count table = b.tables.count table + course.spends.count table
  call : ∀ c p, course = .call c p → x.allows (.call t c) ∧
    (c.begin x.system.now x.memory).2 ≠ .idle ∧ p.Fits x (c.begin x.system.now x.memory).2

section
variable {x y : Session} {b b' : Bench} {t u : ThreadId} {course : Course} {slot : Slot}
  {o : Object} {table : TableId}

/-! ## Jobs -/

theorem job?_dropJob (b : Bench) (t u : ThreadId) :
    (b.dropJob t).job? u = if u = t then none else b.job? u := lookup_without ..

theorem job?_follow_of_ne (hu : u ≠ t) (step : Nat) (course : Course) :
    (b.follow t step course).job? u = b.job? u := by
  have hdrop : (b.dropJob t).job? u = b.job? u := by rw [job?_dropJob, if_neg hu]
  unfold follow
  split
  · exact hdrop
  · split
    · rfl
    · show ((t, _) :: (b.dropJob t).jobs).lookup u = _
      rw [List.lookup_cons, beq_false_of_ne hu]
      exact hdrop

theorem Minds.congr (h : b.Minds x u) (hj : b'.job? u = b.job? u) (hp : y.phase u = x.phase u)
    (hi : ∀ h, x.issued h → y.issued h) : b'.Minds y u := by
  unfold Minds at h ⊢
  rw [hj, hp]
  split
  · next hn => rw [hn] at h; exact h
  · next job hs =>
    rw [hs] at h
    exact ⟨h.1, h.2.mono hi⟩

theorem Minds.idle (h : b.Minds x t) (hj : b.job? t = none) : x.phase t = .idle := by
  unfold Minds at h
  rw [hj] at h
  exact h

/-! ## Courses -/

theorem Ready.follow (h : Ready x b t course) (step : Nat) :
    ∃ y, Backs y (b.follow t step course) := by
  cases course with
  | answer a =>
    refine ⟨x, ⟨h.system, h.reachable, h.keys, h.issued⟩, fun u => ?_, h.names⟩
    by_cases hu : u = t
    · subst hu
      have hnone : (b.follow u step (.answer a)).job? u = none := by
        show (b.dropJob u).job? u = none
        rw [job?_dropJob, if_pos rfl]
      unfold Minds
      rw [hnone]
      exact h.idle
    · exact (h.others u hu).congr (job?_follow_of_ne hu step _) rfl fun _ hg => hg
  | call c p =>
    obtain ⟨ha, hne, hfits⟩ := h.call c p rfl
    obtain ⟨y, hy, hdeals, hnames, hsys⟩ := Session.exists_move_call h.idle c
    have hcall : b.system.call t c = some y.system := by
      rw [h.system, hsys]
      exact System.call_eq_some_iff.mpr ⟨h.idle, rfl⟩
    have hissued (g : Handle) (hg : x.issued g) : y.issued g := by
      rw [Session.issued, hdeals]
      exact hg
    have hfollow : b.follow t step (.call c p) =
        { b.dropJob t with
          system := y.system
          jobs := (t, { step, progress := p }) :: (b.dropJob t).jobs } := by
      simp only [Bench.follow, hcall]
    refine ⟨y, ⟨?_, h.reachable.move ha hy, ?_, ?_⟩, fun u => ?_, fun table => ?_⟩
    · rw [hfollow]
    · rw [hfollow]
      exact h.keys
    · rw [hfollow]
      exact fun e he g hg => hissued g (h.issued e he g hg)
    · by_cases hu : u = t
      · subst hu
        have hself : (b.follow u step (.call c p)).job? u = some { step, progress := p } := by
          rw [hfollow]
          exact List.lookup_cons_self
        unfold Minds
        rw [hself, (Session.of_call hy).1]
        exact ⟨hne, hfits.mono hissued⟩
      · refine (h.others u hu).congr (job?_follow_of_ne hu step _) ?_ hissued
        show y.system.phase u = _
        rw [hsys, System.phase_after_of_ne _ _ _ hu]
    · have hcount := h.names table
      have htables : (b.follow t step (.call c p)).tables = b.tables := by
        rw [hfollow]
        rfl
      rw [hnames, htables]
      rcases hsp : c.spends with _ | j
      · rw [Course.spends, hsp] at hcount
        exact hcount
      · rw [Course.spends, hsp] at hcount
        show (x.names.erase j).count table = _
        rw [List.count_erase, hcount]
        show _ + [j].count table - _ = _
        rw [List.count_singleton]
        omega

theorem Backs.ready (h : Backs x b) (ht : b.job? t = none) (a : Answer) :
    Ready x b t (.answer a) where
  toStocked := h.toStocked
  idle := (h.jobs t).idle ht
  others u _ := h.jobs u
  names := h.names
  call _ _ he := by cases he

theorem Backs.ready_call (h : Backs x b) (ht : b.job? t = none) {c : Call} {p : Progress}
    (hc : c.spends = none) (ha : x.allows (.call t c))
    (hne : (c.begin x.system.now x.memory).2 ≠ .idle)
    (hf : p.Fits x (c.begin x.system.now x.memory).2) : Ready x b t (.call c p) where
  toStocked := h.toStocked
  idle := (h.jobs t).idle ht
  others u _ := h.jobs u
  names table := by
    rw [Course.spends, hc]
    exact h.names table
  call := by
    rintro c p ⟨⟩
    exact ⟨ha, hne, hf⟩

theorem Lends.ready (h : Lends x b t (some o)) {c : Call} (hc : o.farewell = some c) (a : Answer) :
    Ready x b t (.call c (.answer a)) where
  toStocked := h.toStocked
  idle := h.idle
  others := h.others
  names table := by
    rw [h.names table]
    cases o <;> cases hc <;> rfl
  call := by
    rintro c' p ⟨⟩
    have hname (j : TableId) (hj : o.table? = some j) : j ∈ x.names := by
      have hcount := h.names j
      rw [Option.bind_some, hj] at hcount
      have hone : (some j).toList.count j = 1 := List.count_singleton_self
      exact List.count_pos_iff.mp (by omega)
    cases o with
    | table j =>
      cases hc
      exact ⟨decide_eq_true (hname j rfl), nofun, rfl⟩
    | handle g =>
      cases hc
      exact ⟨decide_eq_true (hname g.table rfl), nofun, rfl⟩
    | guard g =>
      cases hc
      have hallows := Bool.and_eq_true_iff.mpr ⟨h.object g rfl, decide_eq_true (hname g.table rfl)⟩
      exact ⟨hallows, nofun, rfl⟩
    | lock => cases hc

theorem Lends.answer {o : Option Object} (h : Lends x b t o) (ho : o.bind Object.farewell = none)
    (a : Answer) : Ready x b t (.answer a) where
  toStocked := h.toStocked
  idle := h.idle
  others := h.others
  names table := by
    rw [h.names table]
    cases o with
    | none => rfl
    | some o => cases o <;> cases ho; rfl
  call _ _ he := by cases he

/-! ## Slots -/

theorem Stocked.erase (h : Stocked x b) (slot : Slot) : Stocked x (b.erase slot) where
  system := h.system
  reachable := h.reachable
  keys := h.keys.sublist (List.filter_sublist.map _)
  issued e he := h.issued e (List.mem_filter.mp he).1

theorem Backs.lends_erase (h : Backs x b) (ht : b.job? t = none) (slot : Slot) :
    Lends x (b.erase slot) t (b.find? slot) where
  toStocked := h.toStocked.erase slot
  idle := (h.jobs t).idle ht
  others u _ := h.jobs u
  names table := by
    rw [h.names table]
    exact (count_filterMap_without h.keys Object.table? slot table).symm
  object g hg := by
    obtain ⟨o, ho, hg⟩ := Option.bind_eq_some_iff.mp hg
    exact h.issued _ (mem_of_lookup ho) g hg

theorem Backs.dismiss (h : Backs x b) (ht : b.job? t = none) (ho : b.find? slot = some o) :
    Ready x (b.dismiss slot o).1 t (b.dismiss slot o).2 := by
  have hlends := h.lends_erase ht slot
  rw [ho] at hlends
  unfold Bench.dismiss
  split
  · next c hc => exact hlends.ready hc .ok
  · next hc => exact hlends.answer hc .ok

theorem Lends.put (h : Lends x b t (some o)) (slot : Slot) (a : Answer) :
    Ready x (b.put slot o a).1 t (b.put slot o a).2 := by
  have hcount (table : TableId) :=
    count_filterMap_without (k := slot) h.keys Object.table? table
  -- The bench with the new object; the old one is in hand now.
  have hlends : Lends x { b.erase slot with slots := (slot, o) :: (b.erase slot).slots } t
      (b.find? slot) := by
    refine ⟨⟨h.system, h.reachable, ?_, ?_⟩, h.idle, h.others, fun table => ?_, fun g hg => ?_⟩
    · show (slot :: (b.erase slot).slots.map (·.1)).Nodup
      refine List.nodup_cons.mpr ⟨fun hmem => ?_, (h.toStocked.erase slot).keys⟩
      obtain ⟨e, he, hs⟩ := List.mem_map.mp hmem
      exact of_decide_eq_true (List.mem_filter.mp he).2 hs
    · intro e he g hg
      rcases List.mem_cons.mp he with rfl | he
      · exact h.object g hg
      · exact (h.toStocked.erase slot).issued e he g hg
    · have hnew : (Bench.tables { b.erase slot with
          slots := (slot, o) :: (b.erase slot).slots }).count table =
          o.table?.toList.count table + (b.erase slot).tables.count table := by
        rw [Bench.tables, List.filterMap_cons]
        cases o.table? with
        | none => exact (Nat.zero_add _).symm
        | some j =>
          show ([j] ++ (b.erase slot).tables).count table = _
          rw [List.count_append]
          rfl
      have hold : (b.erase slot).tables.count table +
          ((b.find? slot).bind Object.table?).toList.count table = b.tables.count table :=
        hcount table
      rw [h.names table, hnew, Option.bind_some]
      omega
    · obtain ⟨o', ho', hg⟩ := Option.bind_eq_some_iff.mp hg
      exact h.issued _ (mem_of_lookup ho') g hg
  unfold Bench.put
  dsimp only
  split
  · next c hc =>
    obtain ⟨o', ho', hc⟩ := Option.bind_eq_some_iff.mp hc
    rw [ho'] at hlends
    exact hlends.ready hc a
  · next hc => exact hlends.answer hc a

/-! ## Deeds -/

theorem find?_of_table? {f : String} (h : b.table? f = some table) :
    b.find? (.factory f) = some (.table table) := by
  unfold table? at h
  split at h
  · next ht => cases h; exact ht
  · cases h

theorem find?_of_handle? {g : Handle} (h : b.handle? slot = some g) :
    ∃ o, b.find? slot = some o ∧ o.table? = some g.table ∧ o.handle? = some g := by
  unfold handle? at h
  split at h
  · next ht => cases h; exact ⟨_, ht, rfl, rfl⟩
  · next ht => cases h; exact ⟨_, ht, rfl, rfl⟩
  · cases h

theorem mem_tables (hf : b.find? slot = some o) (ht : o.table? = some table) :
    table ∈ b.tables := List.mem_filterMap.mpr ⟨_, mem_of_lookup hf, ht⟩

theorem Backs.mem_names (h : Backs x b) : table ∈ x.names ↔ table ∈ b.tables := by
  rw [← List.count_pos_iff, ← List.count_pos_iff, h.names table]

/-- It does not matter whether a handle in hand is a guard. -/
theorem Lends.swap {o' : Object} (h : Lends x b t (some o)) (ht : o'.table? = o.table?)
    (hh : o'.handle? = o.handle?) : Lends x b t (some o') where
  toStocked := h.toStocked
  idle := h.idle
  others := h.others
  names table := by
    rw [h.names table, Option.bind_some, Option.bind_some, ht]
  object g hg := h.object g (by rwa [Option.bind_some, ← hh])

theorem Backs.dismiss_handle (h : Backs x b) (ht : b.job? t = none) {g : Handle}
    (hg : b.handle? slot = some g) (hot : o.table? = some g.table) (hoh : o.handle? = some g) :
    Ready x (b.dismiss slot o).1 t (b.dismiss slot o).2 := by
  obtain ⟨o', hf, ht', hh'⟩ := find?_of_handle? hg
  have hlends := h.lends_erase ht slot
  rw [hf] at hlends
  have hlends := hlends.swap (hot.trans ht'.symm) (hoh.trans hh'.symm)
  unfold Bench.dismiss
  split
  · next c hc => exact hlends.ready hc .ok
  · next hc => exact hlends.answer hc .ok

theorem Backs.command (h : Backs x b) (ht : b.job? t = none) {c : Command}
    (hc : c.onFactories) : Ready x (b.command c).1 t (b.command c).2 := by
  cases c with
  | factory f source =>
    simp only [Bench.command]
    split
    · exact h.ready ht _
    · exact h.ready_call ht rfl rfl nofun rfl
  | cloneFactory f other =>
    simp only [Bench.command]
    split
    · exact h.ready ht _
    · next table htable =>
      have hmem := h.mem_names.mpr (mem_tables (find?_of_table? htable) rfl)
      exact h.ready_call ht rfl (decide_eq_true hmem) nofun ⟨table, rfl, rfl, nofun⟩
  | dropFactory f =>
    simp only [Bench.command]
    split
    · exact h.ready ht _
    · next table htable => exact h.dismiss ht (find?_of_table? htable)
  | cloneHandle g other =>
    simp only [Bench.command]
    split
    · exact h.ready ht _
    · next g' hg =>
      obtain ⟨o, hf, hot, hoh⟩ := find?_of_handle? hg
      have hmem := h.mem_names.mpr (mem_tables hf hot)
      refine h.ready_call ht rfl (decide_eq_true hmem) nofun ⟨_, rfl, rfl, ?_⟩
      rintro _ ⟨⟩
      exact h.issued _ (mem_of_lookup hf) _ hoh
  | dropHandle g =>
    simp only [Bench.command]
    split
    · exact h.ready ht _
    · next g' hg => exact h.dismiss_handle ht hg rfl rfl
  | interrupt target =>
    simp only [Bench.command]
    split
    · exact h.ready_call ht rfl rfl nofun rfl
    · exact h.ready ht _
  | clearInterruptFor target =>
    simp only [Bench.command]
    split
    · exact h.ready_call ht rfl rfl nofun rfl
    · exact h.ready ht _
  | liveFactories | activeLocks | isLocked | queueLength | factoryPolicy | isInterrupted | settle =>
    exact h.ready ht _
  | newMutex | newEntry | grabEntry | closeEntry | sameEntry | wake => cases hc

theorem Backs.task (h : Backs x b) {me : ThreadId} (ht : b.job? me = none) {k : Task}
    (hk : k.onFactories) : Ready x (b.task me k).1 me (b.task me k).2 := by
  have hobtain {f identifier : String} {table : TableId} (htable : b.table? f = some table)
      (slot : Slot) : Ready x b me (.call (.obtain table identifier) (.store slot)) :=
    h.ready_call ht rfl
      (decide_eq_true (h.mem_names.mpr (mem_tables (find?_of_table? htable) rfl))) nofun rfl
  cases k with
  | obtain f identifier g =>
    simp only [Bench.task]
    split
    · exact h.ready ht _
    · next table htable => exact hobtain htable _
  | guard f identifier g =>
    simp only [Bench.task]
    split
    · exact h.ready ht _
    · next table htable => exact hobtain htable _
  | intoGuard g g' =>
    simp only [Bench.task]
    split
    · exact h.ready ht _
    · next k hg =>
      obtain ⟨o, hf, hot, hoh⟩ := find?_of_handle? hg
      have hlends := h.lends_erase ht (.handle g)
      rw [hf] at hlends
      have hswap : Lends x _ me (some (.guard k)) := hlends.swap hot.symm hoh.symm
      exact hswap.put _ _
  | dropGuard g =>
    simp only [Bench.task]
    split
    · exact h.ready ht _
    · next g' hg => exact h.dismiss_handle ht hg rfl rfl
  | release g =>
    simp only [Bench.task]
    split
    · exact h.ready ht _
    · next k hg =>
      obtain ⟨o, hf, hot, hoh⟩ := find?_of_handle? hg
      have hmem := h.mem_names.mpr (mem_tables hf hot)
      have hissued := h.issued _ (mem_of_lookup hf) _ hoh
      exact h.ready_call ht rfl (Bool.and_eq_true_iff.mpr ⟨hissued, decide_eq_true hmem⟩) nofun rfl
  | clearInterrupt => exact h.ready_call ht rfl rfl nofun rfl
  | guardState | handleState => exact h.ready ht _
  | within | tryLock | tryLockFor | unlock | mutexState | entryLock | entryUnlock | entryState
  | checkDeadlock => cases hk

theorem Backs.start (h : Backs x b) {d : Deed} (hd : d.onFactories)
    (ht : b.job? (b.start d).2.1 = none) :
    Ready x (b.start d).1 (b.start d).2.1 (b.start d).2.2 := by
  cases d with
  | command c => exact h.command ht hd
  | task worker k =>
    unfold Bench.start at ht ⊢
    dsimp only at ht ⊢
    split at ht
    · exact h.ready ht _
    · exact h.task ht hd
  | unknown worker => exact h.ready ht _

/-! ## Actions -/

theorem foldl_takeNote_events (notes : List Note) (hn : notes.filterMap Note.outcome? = []) :
    ∃ events, notes.foldl (fun b n => b.takeNote t n) b = { b with events } := by
  induction notes generalizing b with
  | nil => exact ⟨b.events, rfl⟩
  | cons n notes ih =>
    cases n with
    | called c => exact ih hn
    | event e =>
      obtain ⟨events, he⟩ := ih (b := { b with events := (t, e) :: b.events }) hn
      exact ⟨events, he⟩
    | returned o => cases hn

theorem foldl_takeNote_answer {notes : List Note} {out : Outcome}
    (hn : notes.filterMap Note.outcome? = [out]) : ∃ events events',
      notes.foldl (fun b n => b.takeNote t n) b =
        { ({ b with events } : Bench).takeNote t (.returned out) with events := events' } := by
  obtain ⟨before, n, after, rfl, hb, hr, ha⟩ := List.filterMap_eq_cons_iff.mp hn
  have hret : n = .returned out := by
    cases n <;> cases hr
    rfl
  subst hret
  obtain ⟨events, he⟩ := foldl_takeNote_events (t := t) (b := b) before
    (List.filterMap_eq_nil_iff.mpr hb)
  obtain ⟨events', he'⟩ := foldl_takeNote_events (t := t) after
    (b := ({ b with events } : Bench).takeNote t (.returned out)) ha
  refine ⟨events, events', ?_⟩
  rw [List.foldl_append, he, List.foldl_cons, he']

/-- The bench after thread `t` took a step. -/
def take (b : Bench) (t : ThreadId) (st : KeyedLocks.Step) : Bench :=
  st.notes.foldl (fun b n => b.takeNote t n) { b with system := b.system.after t st }

theorem act_eq_some_iff : b.act t = some b' ↔
    ∃ st, (b.system.phase t).next t b.system.now b.memory = some st ∧ b' = b.take t st := by
  unfold Bench.act
  rw [Option.map_eq_some_iff]
  constructor
  · rintro ⟨⟨s, notes⟩, hs, rfl⟩
    obtain ⟨st, hst, rfl, rfl⟩ := System.act_eq_some_iff.mp hs
    exact ⟨st, hst, rfl⟩
  · rintro ⟨st, hst, rfl⟩
    exact ⟨_, System.act_eq_some_iff.mpr ⟨st, hst, rfl, rfl⟩, rfl⟩

theorem take_of_nil {st : KeyedLocks.Step} (hn : st.answers = []) :
    ∃ events, b.take t st = { b with system := b.system.after t st, events } :=
  foldl_takeNote_events _ hn

theorem take_of_answer {st : KeyedLocks.Step} {out : Outcome} {job : Job}
    (hj : b.job? t = some job) (hn : st.answers = [out]) : ∃ events events', b.take t st =
      let r := Bench.resume { b with system := b.system.after t st, events } t out job.progress
      { r.1.follow t job.step r.2 with events := events' } := by
  obtain ⟨events, events', he⟩ := foldl_takeNote_answer (t := t)
    (b := { b with system := b.system.after t st }) hn
  refine ⟨events, events', he.trans ?_⟩
  have hjob : Bench.job? { b with system := b.system.after t st, events } t = some job := hj
  simp only [takeNote, hjob]

theorem table?_made? (slot : Slot) (out : Outcome) :
    (made? slot out).bind Object.table? = out.gain? := by
  cases out <;> first | rfl | (cases slot <;> rfl)

theorem issued_of_acted {st : KeyedLocks.Step} (hy : x.Acted t st y) (g : Handle)
    (hg : x.issued g) :
    y.issued g := Contention.issued_append hg hy.deals

theorem Backs.lends (h : Backs x b) {st : KeyedLocks.Step} (hy : x.Acted t st y)
    (ha : x.allows (.act t))
    (hi : st.phase = .idle) {o : Option Object} (events : List (ThreadId × Event))
    (hn : ∀ table, y.names.count table = x.names.count table +
      (o.bind Object.table?).toList.count table)
    (ho : ∀ g, o.bind Object.handle? = some g → y.issued g) :
    Lends y { b with system := y.system, events } t o where
  system := rfl
  reachable := h.reachable.move ha hy.move
  keys := h.keys
  issued e he g hg := issued_of_acted hy g (h.issued e he g hg)
  idle := hy.phase.trans hi
  others u hu := by
    refine (h.jobs u).congr rfl ?_ (issued_of_acted hy)
    show y.system.phase u = _
    rw [hy.system, System.phase_after_of_ne _ _ _ hu]
  names table := by
    rw [hn table, h.names table]
    rfl
  object := ho

theorem Backs.busy (h : Backs x b) {st : KeyedLocks.Step} (hy : x.Acted t st y)
    (ha : x.allows (.act t)) {job : Job} (hj : b.job? t = some job) (hi : st.phase ≠ .idle)
    (hf : job.progress.Fits y st.phase) (events : List (ThreadId × Event))
    (hn : y.names = x.names) : Backs y { b with system := y.system, events } where
  system := rfl
  reachable := h.reachable.move ha hy.move
  keys := h.keys
  issued e he g hg := issued_of_acted hy g (h.issued e he g hg)
  jobs u := by
    by_cases hu : u = t
    · subst hu
      unfold Minds
      rw [show Bench.job? { b with system := y.system, events } u = b.job? u from rfl, hj, hy.phase]
      exact ⟨hi, hf⟩
    · refine (h.jobs u).congr rfl ?_ (issued_of_acted hy)
      show y.system.phase u = _
      rw [hy.system, System.phase_after_of_ne _ _ _ hu]
  names table := by
    rw [hn]
    exact h.names table

theorem Backs.allows_act (h : Backs x b) (ha : b.allows (.act t)) : x.allows (.act t) := by
  rw [Bench.allows_act_iff, h.system] at ha
  exact Session.allows_act_iff.mpr fun j hj => h.mem_names.mpr (ha j hj)

theorem obtained_of_made? {out : Outcome} {g : Handle}
    (h : (made? slot out).bind Object.handle? = some g) : out = .obtained g := by
  cases out with
  | obtained => cases slot <;> cases h <;> rfl
  | _ => cases h

theorem Backs.resume (h : Backs x b) {st : KeyedLocks.Step} (hy : x.Acted t st y)
    (ha : x.allows (.act t)) {job : Job} (hj : b.job? t = some job) (hi : st.phase = .idle)
    {out : Outcome} (hans : st.answers = [out]) (events : List (ThreadId × Event)) :
    Ready y (Bench.resume { b with system := y.system, events } t out job.progress).1 t
      (Bench.resume { b with system := y.system, events } t out job.progress).2 := by
  have hminds := h.jobs t
  unfold Minds at hminds
  rw [hj] at hminds
  obtain ⟨-, hfits⟩ := hminds
  have hgains (hr : ∀ j, x.phase t ≠ .acting (.retain j)) (table : TableId) :
      y.names.count table = x.names.count table + out.gain?.toList.count table := by
    have hlist : [out].filterMap Outcome.gain? = out.gain?.toList := by
      cases hg : out.gain? <;> simp [hg]
    rw [hy.names_eq hr, hans, hlist, List.count_append, Nat.add_comm]
  have hrenders (hp : (x.phase t).renders) (a : Answer) :
      Ready y { b with system := y.system, events } t (.answer a) := by
    have hr (j : TableId) : x.phase t ≠ .acting (.retain j) := by
      intro hph
      rw [hph] at hp
      cases hp
    have hnone : out.gain? = none := by
      rcases Phase.next_of_renders hp hy.next with hs | ⟨-, hs⟩
      · rw [hi] at hs
        cases hs
      · exact hs out (hans ▸ List.mem_singleton_self out)
    refine (h.lends hy ha hi (o := none) events (fun table => ?_) nofun).answer rfl a
    rw [hgains hr, hnone]
    rfl
  obtain ⟨step, progress⟩ := job
  cases progress with
  | outcome => exact hrenders hfits _
  | answer a => exact hrenders hfits a
  | store slot =>
    have hasks : (x.phase t).asks := hfits
    have hr (j : TableId) : x.phase t ≠ .acting (.retain j) := by
      intro hph
      rw [hph] at hasks
      cases hasks
    have hlends := h.lends hy ha hi (o := made? slot out) events
      (fun table => by rw [hgains hr, table?_made?]) fun g hg => by
        have hdeals := hy.deals_eq fun g' who hph => by rw [hph] at hasks; cases hasks
        rw [hans, obtained_of_made? hg] at hdeals
        rw [Session.issued, hdeals]
        simp [Outcome.grant?]
    simp only [Bench.resume]
    split
    · next hm =>
      rw [hm] at hlends
      exact hlends.answer rfl _
    · next object hm =>
      rw [hm] at hlends
      exact hlends.put slot _
  | bind slot o =>
    obtain ⟨table, hp, ht, ho⟩ := hfits
    have hnames := hy.names
    rw [hp] at hnames
    refine (h.lends hy ha hi (o := some o) events (fun j => ?_) fun g hg => ?_).put slot _
    · rw [hnames, Option.bind_some, ht]
      show ([table] ++ x.names).count j = _
      rw [List.count_append, Nat.add_comm]
      rfl
    · exact issued_of_acted hy g (ho g hg)
  | climb | descend | dismiss => exact hfits.elim

theorem Backs.goOn (h : Backs x b) {st : KeyedLocks.Step} (hy : x.Acted t st y)
    (ha : x.allows (.act t)) {job : Job} (hj : b.job? t = some job) (hi : st.phase ≠ .idle)
    (hans : st.answers = []) (events : List (ThreadId × Event)) :
    Backs y { b with system := y.system, events } := by
  have hminds := h.jobs t
  unfold Minds at hminds
  rw [hj] at hminds
  obtain ⟨-, hfits⟩ := hminds
  have hnames (hr : ∀ j, x.phase t ≠ .acting (.retain j)) : y.names = x.names := by
    rw [hy.names_eq hr, hans]
    rfl
  have hrenders (hp : (x.phase t).renders) : st.phase.renders ∧ y.names = x.names := by
    refine ⟨(Phase.next_of_renders hp hy.next).resolve_right fun hs => hi hs.1,
      hnames fun j hph => ?_⟩
    rw [hph] at hp
    cases hp
  obtain ⟨step, progress⟩ := job
  cases progress with
  | outcome => exact h.busy hy ha hj hi (hrenders hfits).1 events (hrenders hfits).2
  | answer a => exact h.busy hy ha hj hi (hrenders hfits).1 events (hrenders hfits).2
  | store slot =>
    have hasks : (x.phase t).asks := hfits
    refine h.busy hy ha hj hi ((Phase.next_of_asks hasks hy.next).resolve_right hi) events
      (hnames fun j hph => ?_)
    rw [hph] at hasks
    cases hasks
  | bind slot o =>
    obtain ⟨table, hp, -⟩ := hfits
    have hst := hy.next
    rw [hp] at hst
    have hrun : (Action.retain table).run t x.memory = some st := hst
    exact absurd (Action.phase_of_run hrun) hi
  | climb | descend | dismiss => exact hfits.elim

theorem Backs.act (h : Backs x b) (ha : b.allows (.act t)) (hb : b.act t = some b') :
    ∃ y, Backs y b' := by
  obtain ⟨st, hst, rfl⟩ := act_eq_some_iff.mp hb
  have hax := h.allows_act ha
  rw [Bench.memory, h.system] at hst
  obtain ⟨y, hy⟩ := Session.exists_acted hst
  have hsys : b.system.after t st = y.system := by rw [hy.system, h.system]
  rcases hj : b.job? t with _ | job
  · have hst : (x.phase t).next t x.system.now x.memory = some st := hst
    rw [(h.jobs t).idle hj] at hst
    cases hst
  by_cases hi : st.phase = .idle
  · obtain ⟨out, hans⟩ := (Phase.next_tells hy.next).answers_of_idle hi
    obtain ⟨events, events', he⟩ := take_of_answer hj hans
    rw [he, hsys]
    obtain ⟨z, hz⟩ := (h.resume hy hax hj hi hans events).follow job.step
    exact ⟨z, ⟨hz.system, hz.reachable, hz.keys, hz.issued⟩, hz.jobs, hz.names⟩
  · have hans := (Phase.next_tells hy.next).answers_eq_nil hi
    obtain ⟨events, he⟩ := take_of_nil (b := b) (t := t) hans
    rw [he, hsys]
    exact ⟨y, h.goOn hy hax hj hi hans events⟩

/-! ## All turns -/

theorem Backs.turn (h : Backs x b) {a : Turn} (ha : b.allows a) (hb : b.turn a = some b') :
    ∃ y, Backs y b' := by
  cases a with
  | deed step d =>
    have hb : (if (b.job? (b.start d).2.1).isNone then
        some ((b.start d).1.follow (b.start d).2.1 step (b.start d).2.2) else none) = some b' := hb
    split at hb
    · next hj =>
      cases hb
      exact (h.start ha (Option.isNone_iff_eq_none.mp hj)).follow step
    · cases hb
  | act t => exact h.act ha hb
  | rouse t =>
    obtain ⟨system, hr, rfl⟩ := Option.map_eq_some_iff.mp hb
    rw [h.system] at hr
    have hy : x.move (.rouse t) = some { x with system } := Option.map_eq_some_iff.mpr ⟨_, hr, rfl⟩
    obtain ⟨l, -, he⟩ := Session.of_move_rouse hy
    refine ⟨_, ⟨rfl, h.reachable.move rfl hy, h.keys, h.issued⟩, fun u => ?_, h.names⟩
    refine (h.jobs u).congr rfl ?_ fun _ hg => hg
    rw [he]
    rfl
  | tick d =>
    cases hb
    have hy : x.move (.tick d) = some { x with system := x.system.tick d } := rfl
    refine ⟨_, ⟨congrArg (·.tick d) h.system, h.reachable.move rfl hy, h.keys, h.issued⟩,
      fun u => ?_, h.names⟩
    exact (h.jobs u).congr rfl rfl fun _ hg => hg

theorem backs_start (workers : Nat) : Backs {} { workers } where
  system := rfl
  reachable := .start
  keys := List.nodup_nil
  issued := nofun
  jobs _ := rfl
  names _ := rfl

/-- **Behind every bench that users of factories play there is a session.** -/
theorem Plays.backs {workers : Nat} (h : Plays { workers } b) : ∃ x, Backs x b := by
  induction h with
  | refl => exact ⟨_, backs_start workers⟩
  | turn _ ha hb ih =>
    obtain ⟨x, hx⟩ := ih
    exact hx.turn ha hb

end

end Bench

end Scenario

end KeyedLocks
