import KeyedLocks.Proofs.Path
import KeyedLocks.Proofs.WaitFor

/-!
# What threads are after

A thread on its way to a lock is after one identifier of one table (`Phase.aim?`), through all the
locks it finds under it (`Session.Reachable.aim?_of_move`), and meanwhile gives nothing back
(`Session.outstanding_of_move`); so it is during all of a call (`Session.Reachable.of_engaged`). Who
owns the lock that a thread waits for holds what that thread is after
(`Session.Reachable.holds_of_owner`). A thread that is after something it holds already gets to its
own lock, which is open, and takes it: it never waits (`Session.Reachable.reentrant`).

`Session.Secluded q` is what serial runs ask for: while a thread is in a phase with `q`, nobody else
takes a step.
-/

namespace KeyedLocks

/-- The identifier a thread is after, with its table. -/
def Phase.aim? (m : Memory) : Phase → Option (TableId × String)
  | .lookUp table i | .insert table i => some (table, i)
  | p => p.attempt?.bind fun a => a.table.map (·, a.identifier m)

section
variable {m m' : Memory} {p p' : Phase} {a : Attempt} {table : TableId}

theorem Phase.aim?_of_attempt? (ha : p.attempt? = some a) :
    p.aim? m = a.table.map (·, a.identifier m) := by
  unfold aim?
  split
  · cases ha
  · cases ha
  · rw [ha, Option.bind_some]

theorem Phase.aim?_of_table (ha : p.attempt? = some a) (ht : a.table = some table) :
    p.aim? m = some (table, a.identifier m) := by
  rw [aim?_of_attempt? ha, ht]
  rfl

theorem Phase.pursues_of_aim? {P : TableId × String} (h : p.aim? m = some P) : p.pursues := by
  unfold aim? at h
  split at h
  · rfl
  · rfl
  · obtain ⟨a, ha, -⟩ := Option.bind_eq_some_iff.mp h
    exact pursues_of_attempt? ha

theorem Phase.cases_of_pursues (hp : p.pursues) :
    (∃ table i, p = .lookUp table i ∨ p = .insert table i) ∨ ∃ a, p.attempt? = some a := by
  unfold pursues at hp
  split at hp
  · exact .inl ⟨_, _, .inl rfl⟩
  · exact .inl ⟨_, _, .inr rfl⟩
  · exact .inr (Option.isSome_iff_exists.mp hp)

theorem Phase.homed_of_knows {H : Holdings} {D : List Deal} {t : ThreadId}
    (ha : p.attempt? = some a) (hk : p.stake.Knows H D t) :
    ∃ table, a.table = some table ∧ H.Homed table a.lock := by
  cases p with
  | tryTake | readQueue | spend | readClosed => cases ha; exact hk
  | backOut | notifyBackOut | discard => cases ha; exact hk.1
  | checking e | waiting e =>
    cases e with
    | attempt => cases ha; exact hk
    | plain => cases ha
  | idle | lookUp | insert | releasing | unlocking | notifying | interrupting | acting => cases ha

theorem Phase.thread_of_deals {me : ThreadId} {notes : List Note} {d : Deal}
    (hd : d ∈ p.deals me m p' notes) : d.thread = me := by
  unfold deals at hd
  split at hd
  · split at hd
    · cases hd
    · cases List.mem_singleton.mp hd
      rfl
  · obtain ⟨n, -, hn⟩ := List.mem_filterMap.mp hd
    split at hn <;> cases hn
    rfl

theorem Phase.deals_of_pursues {me : ThreadId} {notes : List Note} (hp : p.pursues)
    (hn : ∀ o, .returned o ∉ notes) : p.deals me m p' notes = [] := by
  unfold deals
  split
  · cases hp
  · apply List.filterMap_eq_nil_iff.mpr
    intro n hmem
    split
    · exact absurd hmem (hn _)
    · rfl

end

namespace Session

variable {x y z : Session} {t u w o : ThreadId} {a : Attempt} {table : TableId} {i : String}
  {l : LockId} {m : Move}

/-! ## Others stay away -/

/-- While a thread is in a phase with `q`, nobody else takes a step. -/
def Secluded (q : Phase → Bool) (x : Session) (m : Move) : Prop :=
  ∀ t, q (x.phase t) → ∀ u, m.thread? = some u → u = t

/-- Threads that never did anything need no seclusion. -/
def decidableSecluded {q : Phase → Bool} (hq : q .idle = false) (x : Session) (m : Move) :
    Decidable (x.Secluded q m) :=
  decidable_of_iff (∀ t < x.system.phases.fresh, q (x.phase t) → ∀ u ∈ m.thread?, u = t) <|
    x.forall_lt_iff <| by
      intro t hi hw
      rw [hi, hq] at hw
      cases hw

theorem Secluded.eq_false {q : Phase → Bool} (h : x.Secluded q m) (hm : m.thread? = some u)
    (ht : t ≠ u) : q (x.phase t) = false := by
  rw [Bool.eq_false_iff]
  intro hq
  exact ht (h t hq u hm).symm

/-! ## Threads that go on -/

theorem phase_of_move (hy : x.move m = some y) (hi : x.phase t ≠ .idle) (hm : m ≠ .act t) :
    y.phase t = x.phase t := System.phase_of_moved (moved hy) hi hm

theorem next_of_move (hy : x.move (.act t) = some y) :
    ∃ st, (x.phase t).next t x.system.now x.memory = some st ∧ y.phase t = st.phase ∧
      y.memory = st.memory ∧
      y.deals = (x.phase t).deals t x.memory st.phase st.notes ++ x.deals := by
  obtain ⟨st, hst, rfl⟩ := of_move_act hy
  refine ⟨st, hst, ?_, rfl, rfl⟩
  exact Arena.get_set_self ..

theorem path_of_move (hy : x.move m = some y) (hp : (y.phase t).pursues) :
    (m = .act t ∧ (x.phase t).Path t x.memory y.memory (y.phase t)) ∨
      (∃ c, m = .call t c ∧ x.phase t = .idle ∧ y.phase t = (c.begin x.system.now x.memory).2) ∨
        m ≠ .act t ∧ y.phase t = x.phase t := by
  by_cases hact : m = .act t
  · subst hact
    obtain ⟨st, hst, hphase, hmem, -⟩ := next_of_move hy
    rw [hphase] at hp ⊢
    rw [hmem]
    exact .inl ⟨rfl, Phase.next_path hst hp⟩
  rcases (moved hy).phase_eq_or hact with he | hc
  · exact .inr (.inr ⟨hact, he⟩)
  · exact .inr (.inl hc)

theorem pursues_of_move (hy : x.move m = some y) (hp : (x.phase t).pursues)
    (hi : y.phase t ≠ .idle) : (y.phase t).pursues := by
  by_cases hact : m = .act t
  · subst hact
    obtain ⟨st, hst, hphase, -, -⟩ := next_of_move hy
    rw [hphase] at hi ⊢
    exact ((Phase.next_of_pursues hp hst).resolve_right hi).1
  · rw [phase_of_move hy (fun h => by rw [h] at hp; cases hp) hact]
    exact hp

theorem deals_of_move (hy : x.move m = some y)
    (ht : m = .act t → (x.phase t).pursues ∧ y.phase t ≠ .idle) :
    ∃ ds, y.deals = ds ++ x.deals ∧ ∀ d ∈ ds, d.thread ≠ t := by
  cases m with
  | call v c =>
    obtain ⟨-, rfl⟩ := of_move_call hy
    exact ⟨[], rfl, nofun⟩
  | act v =>
    obtain ⟨st, hst, hphase, -, hdeals⟩ := next_of_move hy
    refine ⟨_, hdeals, fun d hd => ?_⟩
    rw [Phase.thread_of_deals hd]
    rintro rfl
    obtain ⟨hp, hi⟩ := ht rfl
    rw [hphase] at hi
    have hn := ((Phase.next_of_pursues hp hst).resolve_right hi).2
    rw [Phase.deals_of_pursues hp hn] at hd
    cases hd
  | rouse v =>
    obtain ⟨l, -, rfl⟩ := of_move_rouse hy
    exact ⟨[], rfl, nofun⟩
  | tick d => cases hy; exact ⟨[], rfl, nofun⟩

theorem countP_of_deals {D ds : List Deal} (hds : ∀ d ∈ ds, d.thread ≠ t) {q : Deal → Bool}
    (hq : ∀ d, q d → d.thread = t) : (ds ++ D).countP q = D.countP q := by
  rw [List.countP_append, List.countP_eq_zero.mpr fun d hd hqd => hds d hd (hq d hqd),
    Nat.zero_add]

theorem outstanding_of_move (hy : x.move m = some y)
    (ht : m = .act t → (x.phase t).pursues ∧ y.phase t ≠ .idle) (l : LockId) :
    outstanding y.deals t l = outstanding x.deals t l := by
  obtain ⟨ds, he, hds⟩ := deals_of_move hy ht
  unfold outstanding net
  rw [he, countP_of_deals hds, countP_of_deals hds]
  · intro d hd
    simp only [Bool.and_eq_true, decide_eq_true_eq] at hd
    exact hd.2.1
  · intro d hd
    simp only [Bool.and_eq_true, decide_eq_true_eq] at hd
    exact hd.2.1

theorem holds_of_move (hy : x.move m = some y)
    (ht : m = .act t → (x.phase t).pursues ∧ y.phase t ≠ .idle) (table : TableId) (i : String) :
    y.Holds t table i ↔ x.Holds t table i := by
  obtain ⟨ds, he, hds⟩ := deals_of_move hy ht
  have hconcerns (b : Deal → Bool) (d : Deal) (hd : (b d && d.concerns t table i) = true) :
      d.thread = t := by
    simp only [Deal.concerns, Bool.and_eq_true, decide_eq_true_eq] at hd
    exact hd.2.1.1
  unfold Holds releases obtains
  rw [he, countP_of_deals hds (hconcerns _), countP_of_deals hds (hconcerns _)]

/-! ## Aims -/

theorem Reachable.homed (hx : x.Reachable) (ha : (x.phase t).attempt? = some a) :
    ∃ table, a.table = some table ∧ x.memory.holdings.Homed table a.lock :=
  Phase.homed_of_knows ha (hx.orderly.2.knows t)

theorem Reachable.exists_attempt (hx : x.Reachable) {e : Errand}
    (he : (∃ c, x.phase t = .checking e c) ∨ ∃ d s, x.phase t = .waiting e d s) :
    ∃ a left, e = .attempt a left := by
  cases e with
  | attempt a left => exact ⟨a, left, rfl⟩
  | plain l =>
    have hknows : (x.phase t).stake.Knows x.memory.holdings x.deals t := hx.orderly.2.knows t
    rcases he with ⟨c, hp⟩ | ⟨d, s, hp⟩ <;>
      · rw [hp] at hknows
        exact hknows.elim

theorem Reachable.identifier_of_move (hx : x.Reachable) (hy : x.move m = some y)
    (hl : l < x.memory.locks.fresh) :
    (y.memory.lock l).identifier = (x.memory.lock l).identifier :=
  (System.identifier_of_moved hx.reached (moved hy) hl).1

theorem Reachable.aim?_of_attempt? (hx : x.Reachable) (hy : x.move m = some y)
    (ha : (x.phase t).attempt? = some a) (ha' : (y.phase t).attempt? = some a) :
    (y.phase t).aim? y.memory = (x.phase t).aim? x.memory := by
  obtain ⟨table, -, hh⟩ := hx.homed ha
  have hi : a.identifier y.memory = a.identifier x.memory := hx.identifier_of_move hy hh.known
  rw [Phase.aim?_of_attempt? ha, Phase.aim?_of_attempt? ha', hi]

/-- **A thread on its way to a lock stays after the same identifier.** -/
theorem Reachable.aim?_of_move (hx : x.Reachable) (hy : x.move m = some y)
    (hp : (x.phase t).pursues) (hp' : (y.phase t).pursues) :
    (y.phase t).aim? y.memory = (x.phase t).aim? x.memory := by
  rcases path_of_move hy hp' with ⟨-, hpath⟩ | ⟨c, -, hi, -⟩ | ⟨-, he⟩
  · have hsame (a : Attempt) := hx.aim?_of_attempt? (t := t) (a := a) hy
    generalize hph : x.phase t = p at hpath hsame
    generalize hph' : y.phase t = p' at hpath hsame
    generalize hmem : y.memory = m' at hpath
    cases hpath with
    | @found _ table i l hl hp₀ =>
      have hi : (x.memory.lock l).identifier = i := hx.orderly.2.tidy.named (mem_of_lookup hl)
      show some (table, (x.memory.lock l).identifier) = _
      rw [hi]
      rcases hp₀ with rfl | rfl <;> rfl
    | absent => rfl
    | @create table i =>
      have hi : ((x.memory.addEntry table i).lock x.memory.locks.fresh).identifier = i := by
        show ((x.memory.addLock i).lock x.memory.locks.fresh).identifier = i
        rw [Memory.lock_addLock, if_pos rfl]
      show some (table, _) = some (table, i)
      exact congrArg (fun i => some (table, i)) hi
    | discard ht =>
      show some _ = Phase.aim? _ _
      rw [Phase.aim?_of_attempt? rfl, ht]
      rfl
    | take hp₀ =>
      subst m'
      rcases hp₀ with rfl | ⟨left, d, s, rfl⟩ <;> exact hsame _ rfl rfl
    | backOut hp₀ =>
      subst m'
      rcases hp₀ with rfl | rfl <;> exact hsame _ rfl rfl
    | _ => subst m'; exact hsame _ rfl rfl
  · rw [hi] at hp
    cases hp
  · rcases Phase.cases_of_pursues hp with ⟨table, i, h | h⟩ | ⟨a, ha⟩
    · rw [he, h]
      rfl
    · rw [he, h]
      rfl
    · exact hx.aim?_of_attempt? hy ha (he ▸ ha)

/-! ## Whole calls -/

/-- Users do as they may, and `t` is still at its call. -/
abbrev Engaged (t : ThreadId) (x : Session) (m : Move) : Prop :=
  x.allows m ∧ ∀ y ∈ x.move m, y.phase t ≠ .idle

theorem aim?_of_call (hy : x.move (.call t (.obtain table i)) = some y) :
    (y.phase t).aim? y.memory = some (table, i) := by
  obtain ⟨-, rfl⟩ := of_move_call hy
  have hp : (x.system.phases.set t (.lookUp table i)).get t = .lookUp table i :=
    Arena.get_set_self ..
  show Phase.aim? _ ((x.system.phases.set t (.lookUp table i)).get t) = _
  rw [hp]
  rfl

theorem Reachable.of_engaged (hx : x.Reachable) {P : TableId × String}
    (ha : (x.phase t).aim? x.memory = some P) (hz : Leads (Engaged t) x z) :
    z.Reachable ∧ (z.phase t).aim? z.memory = some P ∧
      ∀ table i, z.Holds t table i ↔ x.Holds t table i := by
  induction hz with
  | refl => exact ⟨hx, ha, fun _ _ => Iff.rfl⟩
  | @move y z m _ hm hz ih =>
    obtain ⟨hy, ha, hh⟩ := ih
    have hp := Phase.pursues_of_aim? ha
    have hi : z.phase t ≠ .idle := hm.2 z hz
    refine ⟨.move hy hm.1 hz, ?_, fun table i => ?_⟩
    · rw [hy.aim?_of_move hz hp (pursues_of_move hz hp hi)]
      exact ha
    · rw [holds_of_move hz fun _ => ⟨hp, hi⟩]
      exact hh table i

/-! ## Owners -/

/-- Who owns the lock of an attempt, and has nothing in its hands, holds what the attempt is for. -/
theorem Reachable.holds_of_owner (hx : x.Reachable) (ha : (x.phase w).attempt? = some a)
    (ho : (x.memory.lock a.lock).mutex.owner = some o)
    (hf : ∀ l, (x.phase o).stake.inFlight l = 0) :
    ∃ table, a.table = some table ∧ x.Holds o table (a.identifier x.memory) := by
  obtain ⟨table, ht, hh⟩ := hx.homed ha
  obtain ⟨hwf, hord⟩ := hx.orderly
  have hheld : 0 < x.memory.holdings.held a.lock o := Mutex.holdsOf_of_owner (hwf a.lock) ho
  have hacc := hord.account a.lock o
  simp only [hf] at hacc
  have hout : 0 < outstanding x.deals o a.lock := by omega
  have hentry := hh.kept (hord.live hout)
  exact ⟨table, ht, (hx.orderly.holds_iff hentry).mpr hout⟩

/-! ## Threads that are after what they hold -/

/-- The thread has still to look its lock up, or is about to have the lock, and holds it. -/
def Reenters (x : Session) (t : ThreadId) : Prop :=
  (∃ table i, x.phase t = .lookUp table i) ∨
    ∃ a, (x.phase t = .tryTake a ∨ x.phase t = .readClosed a) ∧ 0 < outstanding x.deals t a.lock

theorem Reenters.next (h : x.Reenters t) (hx : x.Reachable)
    (ha : (x.phase t).aim? x.memory = some (table, i)) (hh : x.Holds t table i)
    {m' : Memory} {p' : Phase} (hpath : (x.phase t).Path t x.memory m' p') :
    ∃ a, (p' = .tryTake a ∨ p' = .readClosed a) ∧ 0 < outstanding x.deals t a.lock := by
  rcases h with ⟨table', i', hp⟩ | ⟨a, hp | hp, hout⟩
  · rw [hp] at ha hpath
    cases ha
    obtain ⟨l, hl⟩ := hx.orderly.entry_of_holds hh
    have hfind := hx.orderly.find?_eq_some_iff.mpr hl
    cases hpath with
    | @found _ table₁ i₁ l₁ hl₁ hp₁ =>
      rcases hp₁ with hp₁ | hp₁ <;> cases hp₁
      obtain rfl : l = l₁ := Option.some.inj (hfind.symm.trans hl₁)
      exact ⟨_, .inl rfl, (hx.orderly.holds_iff hl).mp hh⟩
    | absent hn =>
      rw [hfind] at hn
      cases hn
    | take hp₁ => rcases hp₁ with hp₁ | ⟨left, d, s, hp₁⟩ <;> cases hp₁
  · rw [hp] at hpath
    cases hpath with
    | found _ hp₁ => rcases hp₁ with hp₁ | hp₁ <;> cases hp₁
    | take hp₁ =>
      rcases hp₁ with hp₁ | ⟨left, d, s, hp₁⟩ <;> cases hp₁
      exact ⟨a, .inr rfl, hout⟩
    | miss ho hne =>
      have hown := Mutex.owner_of_holdsOf (hx.orderly.held_of_outstanding hout)
      exact absurd (Option.some.inj (ho.symm.trans hown)) hne
  · rw [hp] at hpath
    cases hpath with
    | found _ hp₁ => rcases hp₁ with hp₁ | hp₁ <;> cases hp₁
    | take hp₁ => rcases hp₁ with hp₁ | ⟨left, d, s, hp₁⟩ <;> cases hp₁
    | shut hc =>
      have hopen : (x.memory.lock a.lock).closed = false := hx.orderly.2.live hout
      rw [hc] at hopen
      cases hopen

/-- **A thread that is after what it holds never waits.** -/
theorem Reachable.reentrant (hx : x.Reachable)
    (ha : (x.phase t).aim? x.memory = some (table, i)) (hh : x.Holds t table i) :
    x.Reenters t := by
  induction hx with
  | start => cases ha
  | @move x y m hx hm hy ih =>
    have hx : x.Reachable := hx
    have hp' := Phase.pursues_of_aim? ha
    rcases path_of_move hy hp' with ⟨rfl, hpath⟩ | ⟨c, rfl, hi, hc⟩ | ⟨hne, he⟩
    · have hp := hpath.pursues
      have hkept (h : Move.act t = .act t) : (x.phase t).pursues ∧ y.phase t ≠ .idle :=
        ⟨hp, fun hn => by rw [hn] at hp'; cases hp'⟩
      rw [hx.aim?_of_move hy hp hp'] at ha
      rw [holds_of_move hy hkept] at hh
      obtain ⟨a, hpa, hout⟩ := (ih ha hh).next hx ha hh hpath
      rw [← outstanding_of_move hy hkept] at hout
      exact .inr ⟨a, hpa, hout⟩
    · rw [hc] at ha
      cases c with
      | obtain table' i' => exact .inl ⟨table', i', hc⟩
      | take => cases hm
      | _ => cases ha
    · have hkept (h : m = .act t) : (x.phase t).pursues ∧ y.phase t ≠ .idle := absurd h hne
      have hp : (x.phase t).pursues := he ▸ hp'
      rw [hx.aim?_of_move hy hp hp'] at ha
      rw [holds_of_move hy hkept] at hh
      rcases ih ha hh with ⟨table', i', h⟩ | ⟨a, hpa, hout⟩
      · exact .inl ⟨table', i', he.trans h⟩
      · rw [← outstanding_of_move hy hkept] at hout
        exact .inr ⟨a, hpa.imp he.trans he.trans, hout⟩

theorem Reachable.not_holds_of_wait (hx : x.Reachable) (hs : (x.phase t).stake = .wait a)
    (ha : (x.phase t).aim? x.memory = some (table, i)) : ¬ x.Holds t table i := by
  intro hh
  rcases hx.reentrant ha hh with ⟨table', i', hp⟩ | ⟨b, hp | hp, -⟩ <;>
    · rw [hp] at hs
      cases hs

end Session

end KeyedLocks
