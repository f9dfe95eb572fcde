import KeyedLocks.Proofs.Deadlock
import KeyedLocks.Proofs.Ledger
import KeyedLocks.Proofs.References
import KeyedLocks.Proofs.Runs

/-!
# Deadlock checks that nobody disturbs

A check reads one lock at a time. `Check.Exact me target m₀ m c` says that `c` is where a check that
began with the memory `m₀` has got to when the memory is `m` and nobody else has acted; each action
keeps it (`Exact.next`), so the verdict is that of the snapshot at the beginning. `System.Checks`
carries out a check to its end, and nobody else acts. `check_exact` says that it answers as the
snapshot demands and leaves the memory as it was.
-/

namespace KeyedLocks

/-- Where an undisturbed check that began with `m₀` has got to. -/
inductive Check.Exact (me : ThreadId) (target : LockId) (m₀ : Memory) : Memory → Check → Prop where
  | isLocked : Exact me target m₀ m₀ .isLocked
  | isMine : Exact me target m₀ m₀ .isMine
  | listTables : Exact me target m₀ m₀ .listTables
  | listLocks {todo : List TableId} {locks : List LockId} :
      (locks ++ todo.flatMap fun t => (m₀.table t).locks) = m₀.liveLocks →
      Exact me target m₀ (m₀.retainAll m₀.liveTables) (.listLocks todo m₀.liveTables locks)
  | readOwner : Exact me target m₀ m₀ (.readOwner m₀.liveLocks)
  | search {goal : ThreadId} {s : Search ThreadId} :
      (m₀.lock target).mutex.owner = some goal → goal ≠ me →
      s.Sound (waitGraph m₀.snapshot) me → Exact me target m₀ m₀ (.search goal m₀.liveLocks s)
  | scan {goal holder : ThreadId} {s : Search ThreadId} {done todo : List LockId} :
      (m₀.lock target).mutex.owner = some goal → goal ≠ me →
      Search.Sound (waitGraph m₀.snapshot) me { s with pending := holder :: s.pending } →
      done ++ todo = m₀.liveLocks →
      Exact me target m₀ m₀
        (.scan goal m₀.liveLocks s holder todo (m₀.waitersIn holder done))
  | collect {goal holder : ThreadId} {s : Search ThreadId} {l : LockId}
      {done todo : List LockId} :
      (m₀.lock target).mutex.owner = some goal → goal ≠ me →
      Search.Sound (waitGraph m₀.snapshot) me { s with pending := holder :: s.pending } →
      done ++ l :: todo = m₀.liveLocks → (m₀.lock l).mutex.isHeldBy holder →
      Exact me target m₀ m₀
        (.collect goal m₀.liveLocks s holder l todo (m₀.waitersIn holder done))
  | report : m₀.Deadlocked me target → Exact me target m₀ m₀ .report

/-- What an undisturbed check may come to. -/
inductive Verdict.Exact (me : ThreadId) (target : LockId) (m₀ : Memory) :
    Memory → Verdict → Prop where
  | more {m : Memory} {c : Check} : c.Exact me target m₀ m → Exact me target m₀ m (.more c)
  | passed : ¬ m₀.Deadlocked me target → Exact me target m₀ m₀ .passed
  | cycle : m₀.Deadlocked me target →
      Exact me target m₀ m₀ (.cycle (m₀.lock target).mutex.owner)

namespace Check

variable {me : ThreadId} {target : LockId} {m₀ m m' : Memory} {c : Check} {v : Verdict}

theorem not_deadlocked (h : ∀ o, (m.lock target).mutex.owner = some o → o = me) :
    ¬ m.Deadlocked me target := fun ⟨o, ho, hne, _⟩ => hne (h o ho)

/-- When a search is over, it has the owner of the target if a wait would close a cycle. -/
theorem deadlocked_iff {goal : ThreadId} {s : Search ThreadId}
    (ho : (m.lock target).mutex.owner = some goal) (hne : goal ≠ me)
    (hs : s.Sound (waitGraph m.snapshot) me) (hp : s.pending = []) :
    goal ∈ s.found ↔ m.Deadlocked me target := by
  rw [hs.mem_found_iff hp, edge_waitGraph_eq]
  constructor
  · intro h
    exact ⟨goal, ho, hne, h⟩
  · rintro ⟨o, ho', -, h⟩
    obtain rfl := Option.some.inj (ho'.symm.trans ho)
    exact h

/-- A check that passes has found the target free or its own, or has searched in vain. -/
theorem Exact.passed (h : c.Exact me target m₀ m) (hr : c.Reads me m target .passed) :
    Verdict.passed.Exact me target m₀ m := by
  cases hr with
  | unlocked _ hl =>
    cases h
    refine .passed (not_deadlocked fun o ho => ?_)
    rw [Mutex.isLocked, ho] at hl
    cases hl
  | mine _ hl =>
    cases h
    refine .passed (not_deadlocked fun o ho => ?_)
    rw [Mutex.isHeldBy, beq_iff_eq, ho] at hl
    exact Option.some.inj hl
  | ownerless _ ho =>
    cases h
    refine .passed (not_deadlocked fun o ho' => ?_)
    rw [ho] at ho'
    cases ho'
  | own _ ho =>
    cases h
    exact .passed (not_deadlocked fun o ho' => Option.some.inj (ho'.symm.trans ho))
  | missed hp hf =>
    cases h with
    | search ho hne hs => exact .passed fun hd => hf ((deadlocked_iff ho hne hs hp).mpr hd)

/-- What a check reads is what it should know of the snapshot when it goes on. -/
theorem Exact.read {c' : Check} (h : c.Exact me target m₀ m)
    (hr : c.Reads me m target (.more c')) : c'.Exact me target m₀ m := by
  cases hr with
  | locked => cases h; exact .isMine
  | others => cases h; exact .listTables
  | listLocks =>
    cases h with
    | listLocks hl =>
      refine .listLocks ?_
      rw [← hl, List.flatMap_cons, List.append_assoc]
      simp only [Table.locks, Memory.entries_retainAll]
  | owner _ ho hne => cases h; exact .search ho hne (Search.sound_start _ me)
  | visit hp =>
    cases h with
    | search ho hne hs =>
      refine .scan ho hne ?_ (List.nil_append _)
      rw [← hp]
      exact hs
  | found hp hf =>
    cases h with
    | search ho hne hs => exact .report ((deadlocked_iff ho hne hs hp).mp hf)
  | scanned =>
    cases h with
    | scan ho hne hs hl =>
      rw [List.append_nil] at hl
      subst hl
      exact .search ho hne (hs.absorb rfl fun _ => Memory.mem_waitersIn)
  | held _ hh =>
    cases h with
    | scan ho hne hs hl => exact .collect ho hne hs hl hh
  | skipped _ hh =>
    cases h with
    | @scan _ _ _ done _ ho hne hs hl =>
      rw [← Memory.waitersIn_of_not_held (Bool.eq_false_iff.mp hh) done]
      exact .scan ho hne hs (by rw [List.append_assoc]; exact hl)
  | collected =>
    cases h with
    | @collect _ _ _ _ done _ ho hne hs hl hh =>
      rw [← Memory.waitersIn_of_held hh done]
      exact .scan ho hne hs (by rw [List.append_assoc]; exact hl)

/-- A check that has its list of locks has dropped what it kept for that. -/
theorem Exact.listed {kept : List TableId} {locks : List LockId}
    (h : Exact me target m₀ m (.listLocks [] kept locks)) :
    Exact me target m₀ (m.forgoAll kept) (.readOwner locks) := by
  cases h with
  | listLocks hl =>
    rw [List.flatMap_nil, List.append_nil] at hl
    rw [Memory.forgoAll_retainAll fun t ht =>
      Memory.lt_fresh_of_isAlive (Memory.mem_liveTables.mp ht).2, hl]
    exact .readOwner

/-- Each action of an undisturbed check leads closer to the verdict of the snapshot. -/
theorem Exact.next (h : c.Exact me target m₀ m) (hn : c.next me m target = some (m', v)) :
    v.Exact me target m₀ m' := by
  rcases next_reads hn with ⟨rfl, hr⟩ | ⟨rfl, rfl, rfl⟩ | ⟨kept, locks, rfl, rfl, rfl⟩
  · cases v with
    | more => exact .more (h.read hr)
    | passed => exact h.passed hr
    | cycle => cases hr; cases h with | report hd => exact .cycle hd
  · cases h; exact .more (.listLocks rfl)
  · exact .more h.listed

/-! ## Whole checks -/

/-- The actions of a check to the end, one after the other. -/
inductive Run (me : ThreadId) (target : LockId) : Memory → Check → Memory → Verdict → Prop where
  | last {m m' : Memory} {c : Check} {v : Verdict} : c.next me m target = some (m', v) →
      (∀ c', v ≠ .more c') → Run me target m c m' v
  | more {m m' m'' : Memory} {c c' : Check} {v : Verdict} :
      c.next me m target = some (m', .more c') → Run me target m' c' m'' v →
      Run me target m c m'' v

theorem Run.exact (h : Run me target m c m' v) (hc : c.Exact me target m₀ m) :
    v.Exact me target m₀ m' ∧ ∀ c', v ≠ .more c' := by
  induction h with
  | last hn hv => exact ⟨hc.next hn, hv⟩
  | more hn _ ih =>
    cases hc.next hn with
    | more hc' => exact ih hc'

/-- Some run of the check comes to an end. -/
def Ends (me : ThreadId) (target : LockId) (m : Memory) (c : Check) : Prop :=
  ∃ m' v, Run me target m c m' v

theorem Ends.more {c' : Check} (hn : c.next me m target = some (m', .more c'))
    (h : Ends me target m' c') : Ends me target m c := by
  obtain ⟨m'', v, hr⟩ := h
  exact ⟨m'', v, .more hn hr⟩

theorem ends_of_passed (hn : c.next me m target = some (m, .passed)) : Ends me target m c :=
  ⟨m, .passed, .last hn nofun⟩

theorem ends_report (ht : (m.lock target).latch = none) : Ends me target m .report := by
  have hn : Check.report.next me m target = some (m, .cycle (m.lock target).mutex.owner) := by
    simp only [Check.next, Memory.critical, ht, if_true]
  exact ⟨m, .cycle (m.lock target).mutex.owner, .last hn fun _ h => by cases h⟩

theorem ends_scan {goal holder : ThreadId} {s : Search ThreadId} {done todo : List LockId}
    (hl : ∀ l ∈ m.liveLocks, (m.lock l).latch = none) (hd : done ++ todo = m.liveLocks)
    (hs : Ends me target m
      (.search goal m.liveLocks (s.absorb (m.waitersIn holder m.liveLocks)))) :
    Ends me target m (.scan goal m.liveLocks s holder todo (m.waitersIn holder done)) := by
  induction todo generalizing done with
  | nil =>
    rw [List.append_nil] at hd
    subst hd
    exact hs.more rfl
  | cons l todo ih =>
    have hfree : (m.lock l).latch = none := by
      apply hl
      rw [← hd]
      exact List.mem_append_right _ (List.mem_cons_self ..)
    have hd' : done ++ [l] ++ todo = m.liveLocks := by
      rw [List.append_assoc]
      exact hd
    have ih := ih hd'
    by_cases hh : (m.lock l).mutex.isHeldBy holder
    · rw [Memory.waitersIn_of_held hh done] at ih
      -- Its waiters are read in a second critical section.
      have hcollect : Ends me target m
          (.collect goal m.liveLocks s holder l todo (m.waitersIn holder done)) :=
        ih.more (by simp only [Check.next, Memory.critical, hfree, if_true])
      exact hcollect.more (by simp only [Check.next, Memory.critical, hfree, if_true, hh])
    · rw [Memory.waitersIn_of_not_held hh done] at ih
      exact ih.more (by simp only [Check.next, Memory.critical, hfree, if_true, if_neg hh])

theorem ends_search {goal : ThreadId} {s : Search ThreadId}
    (ht : (m.lock target).latch = none) (hl : ∀ l ∈ m.liveLocks, (m.lock l).latch = none) :
    Ends me target m (.search goal m.liveLocks s) := by
  -- Each turn takes a node off the stack, and pushes only nodes that were not marked.
  induction hn : 2 * (waitGraph m.snapshot).unmarked s.found + s.pending.length
    using Nat.strongRecOn generalizing s with
  | ind n ih =>
    rcases hp : s.pending with _ | ⟨holder, rest⟩
    · by_cases hf : goal ∈ s.found
      · exact (ends_report ht).more (by simp only [Check.next, hp, hf, if_true])
      · exact ends_of_passed (by simp only [Check.next, hp, hf, if_false])
    · have hlt : 2 * (waitGraph m.snapshot).unmarked
          ({ s with pending := rest }.absorb (m.waitersIn holder m.liveLocks)).found +
          ({ s with pending := rest }.absorb (m.waitersIn holder m.liveLocks)).pending.length
          < n := by
        have hle := (waitGraph m.snapshot).unmarked_absorb_le (m.waitersIn holder m.liveLocks)
          { s with pending := rest }
          fun w hw => List.mem_map_of_mem (Memory.mem_waitersIn.mp hw)
        rw [hp, List.length_cons] at hn
        simp only at hle
        omega
      have hscan : Ends me target m
          (.scan goal m.liveLocks { s with pending := rest } holder m.liveLocks []) :=
        ends_scan hl (List.nil_append _) (ih _ hlt rfl)
      exact hscan.more (by simp only [Check.next, hp])

theorem ends_readOwner (ht : (m.lock target).latch = none)
    (hl : ∀ l ∈ m.liveLocks, (m.lock l).latch = none) :
    Ends me target m (.readOwner m.liveLocks) := by
  rcases ho : (m.lock target).mutex.owner with _ | o
  · exact ends_of_passed (by simp only [Check.next, Memory.critical, ht, if_true, ho])
  · by_cases hme : o = me
    · exact ends_of_passed (by simp only [Check.next, Memory.critical, ht, if_true, ho, hme])
    · have hs : Ends me target m (.search o m.liveLocks (.start me)) := ends_search ht hl
      exact hs.more (by simp only [Check.next, Memory.critical, ht, if_true, ho, hme, if_false])

theorem ends_listLocks {todo : List TableId} {locks : List LockId}
    (ht : (m.lock target).latch = none) (hl : ∀ l ∈ m.liveLocks, (m.lock l).latch = none)
    (hd : (locks ++ todo.flatMap fun t => (m.table t).locks) = m.liveLocks) :
    Ends me target (m.retainAll m.liveTables) (.listLocks todo m.liveTables locks) := by
  induction todo generalizing locks with
  | nil =>
    rw [List.flatMap_nil, List.append_nil] at hd
    subst hd
    have hm := Memory.forgoAll_retainAll (m := m) fun t ht =>
      Memory.lt_fresh_of_isAlive (Memory.mem_liveTables.mp ht).2
    exact (ends_readOwner ht hl).more (by simp only [Check.next, hm])
  | cons t todo ih =>
    refine (ih ?_).more rfl
    rw [← hd, List.flatMap_cons, List.append_assoc]
    simp only [Table.locks, Memory.entries_retainAll]

/-- A check comes to an end by itself, if nobody is inside of one of the locks. -/
theorem ends_of_free (hl : ∀ l ∈ target :: m.liveLocks, (m.lock l).latch = none) :
    Ends me target m .isLocked := by
  have ht := hl target (List.mem_cons_self ..)
  have hlive (l : LockId) (h : l ∈ m.liveLocks) : (m.lock l).latch = none :=
    hl l (List.mem_cons_of_mem _ h)
  have hlist : Ends me target (m.retainAll m.liveTables)
      (.listLocks m.liveTables m.liveTables []) := ends_listLocks ht hlive (List.nil_append _)
  have hrest : Ends me target m .listTables := hlist.more rfl
  have hmine : Ends me target m .isMine := by
    by_cases hh : (m.lock target).mutex.isHeldBy me
    · exact ends_of_passed (by simp only [Check.next, Memory.critical, ht, if_true, hh])
    · exact hrest.more (by simp only [Check.next, Memory.critical, ht, if_true, if_neg hh])
  by_cases hk : (m.lock target).mutex.isLocked
  · exact hmine.more (by simp only [Check.next, Memory.critical, ht, if_true, hk])
  · exact ends_of_passed (by simp only [Check.next, Memory.critical, ht, if_true, if_neg hk])

end Check

/-! ## Checks in a system -/

namespace System

/-- `me` carries out its check of `e` to the end, and nobody else moves. -/
inductive Checks (me : ThreadId) (e : Errand) : System → System → List Note → Prop where
  | last {s s' : System} {c : Check} {notes : List Note} : s.phase me = .checking e c →
      s.act me = some (s', notes) → (∀ c', s'.phase me ≠ .checking e c') → Checks me e s s' notes
  | more {s s' s'' : System} {c c' : Check} {notes notes' : List Note} :
      s.phase me = .checking e c → s.act me = some (s', notes) → s'.phase me = .checking e c' →
      Checks me e s' s'' notes' → Checks me e s s'' (notes ++ notes')

variable {s s' : System} {me : ThreadId} {e : Errand} {c : Check} {notes : List Note}

theorem act_checking_iff (hs : s.phase me = .checking e c) : s.act me = some (s', notes) ↔
    ∃ m v, c.next me s.memory e.lock = some (m, v) ∧ s' = s.after me (e.judge m v) ∧
      notes = (e.judge m v).notes := by
  rw [act_eq_some_iff, hs]
  show (∃ st, (c.next me s.memory e.lock).map _ = some st ∧ _) ↔ _
  simp only [Option.map_eq_some_iff, Prod.exists]
  constructor
  · rintro ⟨st, ⟨m, v, hv, rfl⟩, hn, hs'⟩
    exact ⟨m, v, hv, hs', hn⟩
  · rintro ⟨m, v, hv, hs', hn⟩
    exact ⟨_, ⟨m, v, hv, rfl⟩, hn, hs'⟩

theorem phase_judge (e : Errand) (m : Memory) (v : Verdict) (c : Check) :
    (e.judge m v).phase = .checking e c ↔ v = .more c := by
  cases v with
  | more c' =>
    show Phase.checking e c' = _ ↔ _
    rw [Phase.checking.injEq, Verdict.more.injEq]
    exact ⟨And.right, fun h => ⟨rfl, h⟩⟩
  | passed => cases e <;> exact ⟨nofun, nofun⟩
  | cycle => exact ⟨nofun, nofun⟩

theorem checks_iff (hs : s.phase me = .checking e c) : Checks me e s s' notes ↔
    ∃ m v, c.Run me e.lock s.memory m v ∧ s' = s.after me (e.judge m v) ∧
      notes = (e.judge m v).notes := by
  constructor
  · intro h
    induction h generalizing c with
    | @last s s' c₀ notes hs₀ ha hend =>
      obtain ⟨m, v, hn, rfl, rfl⟩ := (act_checking_iff hs).mp ha
      refine ⟨m, v, .last hn fun c' hv => ?_, rfl, rfl⟩
      refine hend c' ?_
      rw [phase_after, phase_judge]
      exact hv
    | @more s s' s'' c₀ c' notes notes' hs₀ ha hs' _ ih =>
      obtain ⟨m, v, hn, rfl, rfl⟩ := (act_checking_iff hs).mp ha
      rw [phase_after, phase_judge] at hs'
      subst hs'
      obtain ⟨m', v', hr, rfl, rfl⟩ := ih (phase_after ..)
      exact ⟨m', v', .more hn hr, after_after .., rfl⟩
  · rintro ⟨m, v, hr, rfl, rfl⟩
    generalize hm : s.memory = m₀ at hr
    induction hr generalizing s with
    | last hn hend =>
      refine .last hs ((act_checking_iff hs).mpr ⟨_, _, hm ▸ hn, rfl, rfl⟩) fun c' hc' => ?_
      rw [phase_after, phase_judge] at hc'
      exact hend c' hc'
    | @more m m' m'' c c' v hn _ ih =>
      have ha := (act_checking_iff hs).mpr ⟨_, _, hm ▸ hn, rfl, rfl⟩
      have hs' : (s.after me (e.judge m' (.more c'))).phase me = .checking e c' := phase_after ..
      rw [← after_after s me (e.judge m' (.more c'))]
      exact .more hs ha hs' (ih hs' rfl)

end System

/-- What the check of `e` by `me` in `s` should come to. If a wait closed a cycle, the errand ends
with an error that names the lock, and an acquisition gives up its reference to the table. In every
other case the errand goes on, or reports that nothing stands against it. -/
structure Errand.Answers (e : Errand) (me : ThreadId) (s s' : System) (notes : List Note) :
    Prop where
  deadlock : s.memory.Deadlocked me e.lock →
    s'.memory = s.memory.forgoAll e.tables ∧ s'.phase me = .idle ∧
      notes = [.event (.deadlock (s.memory.lock e.lock).identifier
          (s.memory.lock e.lock).mutex.owner),
        .returned (.refused (.deadlock (s.memory.lock e.lock).identifier))]
  pass : ¬ s.memory.Deadlocked me e.lock → s'.memory = s.memory ∧
    (∀ a left, e = .attempt a left → s'.phase me = .spend a left ∧ notes = []) ∧
    ∀ l, e = .plain l → s'.phase me = .idle ∧ notes = [.returned .done]
  others : s'.now = s.now ∧ ∀ t, t ≠ me → s'.phase t = s.phase t

namespace System

variable {s s' : System} {me : ThreadId} {e : Errand} {notes : List Note}

/-- A check comes to an end by itself, unless somebody is inside of a lock. -/
theorem exists_checks (hs : s.phase me = .checking e .isLocked)
    (hl : ∀ l ∈ e.lock :: s.memory.liveLocks, (s.memory.lock l).latch = none) :
    ∃ s' notes, Checks me e s s' notes := by
  obtain ⟨m, v, hr⟩ : Check.Ends me e.lock s.memory .isLocked := Check.ends_of_free hl
  exact ⟨_, _, (checks_iff hs).mpr ⟨m, v, hr, rfl, rfl⟩⟩

theorem Checks.answers (h : Checks me e s s' notes) (hs : s.phase me = .checking e .isLocked) :
    e.Answers me s s' notes := by
  obtain ⟨m, v, hr, rfl, rfl⟩ := (checks_iff hs).mp h
  have hothers : (s.after me (e.judge m v)).now = s.now ∧
      ∀ t, t ≠ me → (s.after me (e.judge m v)).phase t = s.phase t := by
    constructor
    · rfl
    · intro t ht
      exact Arena.get_set_ne _ _ ht
  obtain ⟨hv, hend⟩ := hr.exact .isLocked
  cases hv with
  | more => exact absurd rfl (hend _)
  | passed hd =>
    refine ⟨fun h => absurd h hd, fun _ => ⟨?_, ?_, ?_⟩, hothers⟩
    · cases e <;> rfl
    · rintro a left rfl
      exact ⟨phase_after .., rfl⟩
    · rintro l rfl
      exact ⟨phase_after .., rfl⟩
  | cycle hd =>
    refine ⟨fun _ => ⟨rfl, ?_, rfl⟩, fun h => absurd hd h, hothers⟩
    exact phase_after ..

end System

/-- **The deadlock check is exact.** A verdict on a snapshot says whether a wait would close a
cycle, and a check that nobody disturbs answers as the snapshot of the live tables demands. It comes
to an end unless somebody is inside of a lock. -/
theorem check_exact :
    (∀ me target locks, wouldDeadlock me target locks = true ↔ ClosesCycle me target locks) ∧
    ∀ (s : System) (me : ThreadId) (e : Errand), s.phase me = .checking e .isLocked →
      ((∀ l ∈ e.lock :: s.memory.liveLocks, (s.memory.lock l).latch = none) →
        ∃ s' notes, System.Checks me e s s' notes) ∧
      ∀ s' notes, System.Checks me e s s' notes → e.Answers me s s' notes := by
  constructor
  · intro me target locks
    exact wouldDeadlock_iff
  · intro s me e hs
    constructor
    · exact System.exists_checks hs
    · intro s' notes h
      exact h.answers hs

/-- Thread 1 has "a", thread 2 has "b" and sleeps until it gets "a". Now thread 1 wants "b". -/
def standoff : List Move := List.flatten
  [[.call 0 (.act (.makeTable .unbounded false)), .act 0,
      .call 1 (.obtain 0 "a"), .act 1, .act 1, .act 1, .act 1,
      .call 2 (.obtain 0 "b"), .act 2, .act 2, .act 2, .act 2,
      .call 2 (.obtain 0 "a")], List.replicate 19 (.act 2),
    [.call 1 (.obtain 0 "b")], List.replicate 3 (.act 1)]

theorem check_exact_standoff : ∃ x s' notes, Session.run Session.Allowed {} standoff = some x ∧
    System.Checks 1 (.attempt ⟨1, .unbounded, some 0⟩ none) x.system s' notes ∧
    notes = [.event (.deadlock "b" (some 2)), .returned (.refused (.deadlock "b"))] := by
  have hx : ∃ x, Session.run Session.Allowed {} standoff = some x ∧ x.Reachable ∧
      x.phase 1 = .checking (.attempt ⟨1, .unbounded, some 0⟩ none) .isLocked ∧
      (∀ l ∈ 1 :: x.memory.liveLocks, (x.memory.lock l).latch = none) ∧
      x.memory.lock 1 = { identifier := "b", mutex := { owner := some 2, holds := 1 } } ∧
      Blocks x.memory.snapshot 1 2 := Session.exists_of_run (by decide +kernel)
  obtain ⟨x, hr, -, hs, hl, hk, hb⟩ := hx
  obtain ⟨hends, hans⟩ := check_exact.2 x.system 1 _ hs
  obtain ⟨s', notes, hc⟩ := hends hl
  obtain ⟨-, -, hn⟩ := (hans s' notes hc).deadlock
    ⟨2, congrArg (·.mutex.owner) hk, by decide, .single hb⟩
  refine ⟨x, s', notes, hr, hc, ?_⟩
  rw [hn]
  show [Note.event (.deadlock (x.memory.lock 1).identifier (x.memory.lock 1).mutex.owner),
    .returned (.refused (.deadlock (x.memory.lock 1).identifier))] = _
  rw [hk]

end KeyedLocks
