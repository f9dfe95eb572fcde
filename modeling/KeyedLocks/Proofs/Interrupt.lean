import KeyedLocks.Proofs.Flags
import KeyedLocks.Proofs.Lifetime
import KeyedLocks.Proofs.Rest
import KeyedLocks.Proofs.Sleep

/-!
# Interrupts reach those who sleep

An interrupt raises a flag, then lists tables, their locks and the threads in their queues while all
of these change. `InterruptStage.Covers` says which locks it has still to look at. A thread that
sleeps on a registered lock, or is about to, although its flag is up (`System.Drowsy`), sleeps on a
lock that whoever raised the flag has still to look at (`Session.Watched`): the thread looked at its
flag while it had the latch, so the flag was raised after that, and the queue is read after the
latch is free again. When the interrupt is over nothing is left to look at, so the thread does not
sleep (`Session.not_asleep_of_interrupted`).
-/

namespace KeyedLocks

/-! ## Threads that will not look at their flag -/

/-- Thread `t` sleeps on lock `l`, or will do so without looking at its flag again. -/
def System.Drowsy (s : System) (t : ThreadId) (l : LockId) : Prop :=
  (s.phase t).stage? l = some .doze ∨
    (s.phase t).stage? l = some .asleep ∧ t ∈ (s.memory.lock l).sleepers

section
variable {me t : ThreadId} {now : Nat} {m : Memory} {p : Phase} {st : Step} {l : LockId}

theorem Phase.not_doze_of_interrupted (h : p.next me now m = some st) (hf : m.isInterrupted me)
    (hp : p.stage? l = some .checkFlag) : st.phase.stage? l ≠ some .doze := by
  obtain ⟨e, d, rfl, -⟩ := waiting_of_stage? hp
  cases next_acts h with
  | heed =>
    rw [Errand.stage?_conclude]
    exact (Option.some_ne_none _).symm
  | drowse hn =>
    rw [hf] at hn
    cases hn

namespace System

variable {s s' : System} {move : Move}

theorem drowsy_of_after (hst : (s.phase me).next me s.now s.memory = some st)
    (hf : s.memory.isInterrupted t) (h : (s.after me st).Drowsy t l) : s.Drowsy t l := by
  have hs : Stir me l (s.phase me) (s.memory.lock l) st.phase (st.memory.lock l) :=
    Phase.next_stirs hst l
  by_cases ht : t = me
  -- On its way to sleep, the thread looks at its flag.
  · subst ht
    rw [Drowsy, phase_after] at h
    have hnot : (s.phase t).stage? l = some .checkFlag → st.phase.stage? l ≠ some .doze :=
      Phase.not_doze_of_interrupted hst hf
    have hk : (s.after t st).memory.lock l = st.memory.lock l := rfl
    rw [hk] at h
    generalize st.memory.lock l = k' at h hs
    cases hs with
    | rest ha hp =>
      rw [hp, ha.sleepers] at h
      exact h
    | notify _ hp | take _ _ _ hp | release _ _ _ hp | quit _ hp | grab _ _ _ _ hp
    | enter _ _ _ _ hp | rise _ _ _ _ _ hp =>
      rw [hp] at h
      exact absurd h (by simp)
    | drowse hp hq => exact absurd hq (hnot hp)
    | sleep hp => exact .inl hp
  -- Nobody puts another thread to sleep.
  · rw [Drowsy, phase_after_of_ne _ _ _ ht] at h
    rcases h with h | ⟨hp, hsl⟩
    · exact .inl h
    refine .inr ⟨hp, ?_⟩
    have hk : (s.after me st).memory.lock l = st.memory.lock l := rfl
    rw [hk] at hsl
    generalize st.memory.lock l = k' at hsl hs
    cases hs with
    | rest ha => exact ha.sleepers ▸ hsl
    | notify => cases hsl
    | take | release | enter | drowse | quit | rise | grab => exact hsl
    | sleep =>
      rcases List.mem_append.mp hsl with hsl | hsl
      · exact hsl
      · exact absurd (List.mem_singleton.mp hsl) ht

theorem drowsy_of_moved (hm : s.Moved move s') (hf : s.memory.isInterrupted t)
    (h : s'.Drowsy t l) : s.Drowsy t l := by
  cases hm with
  | @call u c hi =>
    by_cases ht : t = u
    · subst ht
      rw [Drowsy, phase_after] at h
      have hp : (c.begin s.now s.memory).2.stage? l = none := by cases c <;> rfl
      simp [Step.moveTo, hp] at h
    · rw [Drowsy, phase_after_of_ne _ _ _ ht] at h
      have hk : (s.after u (.moveTo (c.begin s.now s.memory).1
          (c.begin s.now s.memory).2)).memory.lock l = s.memory.lock l := by
        show (c.begin s.now s.memory).1.locks.get l = _
        rw [c.begin_locks]
        rfl
      rw [hk] at h
      exact h
  | act hst => exact drowsy_of_after hst hf h
  | @rouse u j =>
    rcases h with h | ⟨hp, hsl⟩
    · exact .inl h
    refine .inr ⟨hp, ?_⟩
    have hsl : t ∈ ((s.memory.rouse j u).lock l).sleepers := hsl
    rw [Memory.rouse, Memory.lock_modifyLock] at hsl
    split at hsl
    · next hj => rw [hj]; exact (List.mem_filter.mp hsl).1
    · exact hsl
  | tick => exact h

theorem Reached.waits_of_drowsy (hs : s.Reached) (h : s.Drowsy t l) :
    (∃ e d st, s.phase t = .waiting e d st ∧ e.lock = l) ∧
      t ∈ (s.memory.lock l).mutex.waiters := by
  obtain ⟨e, d, st, hst, hp, hl⟩ :
      ∃ e d st, st ≠ .enter ∧ s.phase t = .waiting e d st ∧ e.lock = l := by
    rcases h with h | ⟨h, -⟩
    · obtain ⟨e, d, hp, hl⟩ := Phase.waiting_of_stage? h
      exact ⟨e, d, .doze, nofun, hp, hl⟩
    · obtain ⟨e, d, hp, hl⟩ := Phase.waiting_of_stage? h
      exact ⟨e, d, .asleep, nofun, hp, hl⟩
  have hq : (s.phase t).queue? = some l := by
    rw [hp, Phase.queue?_waiting hst, hl]
  exact ⟨⟨e, d, st, hp, hl⟩, hs.queues.mem_iff.mpr hq⟩

theorem Reached.not_drowsy_of_cleared (hs : s.Reached) (ht : t ≠ me)
    (hf : (s.memory.lock l).latch = none) (hsl : (st.memory.lock l).sleepers = []) :
    ¬ (s.after me st).Drowsy t l := by
  rw [Drowsy, phase_after_of_ne _ _ _ ht]
  rintro (h | ⟨-, h⟩)
  · have hlatch := ((hs.poised l).latched t (.inr h)).1
    rw [hf] at hlatch
    cases hlatch
  · have h : t ∈ (st.memory.lock l).sleepers := h
    rw [hsl] at h
    cases h

end System

/-! ## What an interrupt has still to look at -/

/-- At this stage of an interrupt, lock `l` of `table` is still to be looked at. -/
def InterruptStage.Covers (table : TableId) (l : LockId) : InterruptStage → Prop
  | .raise | .listTables => True
  | .listLocks todo => table ∈ todo
  | .inspect _ ls todo => l ∈ ls ∨ table ∈ todo
  | .wake _ j ls todo => l = j ∨ l ∈ ls ∨ table ∈ todo

/-- The thread interrupts `t` and has still to look at lock `l` of `table`. -/
def Phase.Seeks (t : ThreadId) (table : TableId) (l : LockId) (p : Phase) : Prop :=
  ∃ s, p = .interrupting t s ∧ s.Covers table l

variable {table : TableId}

/-- An interrupt passes over no lock that has `t` in its queue: it goes on to wake it, and when it
does, the latch is free and nobody sleeps on. -/
theorem interrupt_seeks {s : InterruptStage} (h : interrupt m t s = some st)
    (hs : s.Covers table l) (ha : table ∈ m.liveTables) (hl : l ∈ (m.table table).locks)
    (hw : t ∈ (m.lock l).mutex.waiters) :
    st.phase.Seeks t table l ∨ (m.lock l).latch = none ∧ (st.memory.lock l).sleepers = [] := by
  have hacts : (Phase.interrupting t s).Acts t 0 m st := interrupt_acts h
  cases hacts with
  | raise => exact .inl ⟨_, rfl, trivial⟩
  | seek => exact .inl ⟨_, rfl, ha⟩
  | requested => cases hs
  | listLocks =>
    rcases List.mem_cons.mp hs with rfl | hs
    · exact .inl ⟨_, rfl, .inl hl⟩
    · exact .inl ⟨_, rfl, .inr hs⟩
  | inspected => exact .inl ⟨_, rfl, hs.resolve_left List.not_mem_nil⟩
  | spot =>
    rcases hs with hs | hs
    · exact .inl ⟨_, rfl, (List.mem_cons.mp hs).imp_right .inl⟩
    · exact .inl ⟨_, rfl, .inr (.inr hs)⟩
  -- It leaves out the lock only if `t` is not in its queue.
  | passOver _ hk =>
    refine .inl ⟨_, rfl, hs.imp_left fun hs => (List.mem_cons.mp hs).resolve_left ?_⟩
    rintro rfl
    exact hk hw
  | wake hf =>
    rcases hs with rfl | hs
    · refine .inr ⟨hf, ?_⟩
      show ((m.notifyAll l).lock l).sleepers = []
      rw [Memory.notifyAll, Memory.lock_modifyLock, if_pos rfl]
    · exact .inl ⟨_, rfl, hs⟩

theorem System.seeks_of_moved {s s' : System} {move : Move} (hm : s.Moved move s')
    (ht : s'.memory.isInterrupted t) : s.memory.isInterrupted t ∨
      ∃ i, ∀ l table, (s'.phase i).Seeks t table l := by
  cases hm with
  | @call u c =>
    left
    have ht : (c.begin s.now s.memory).1.isInterrupted t := ht
    rw [Memory.isInterrupted, c.begin_interrupted] at ht
    exact ht
  | @act u st hst =>
    refine ((Phase.next_flags hst).raised ht).imp_right fun hp => ⟨u, fun l table => ?_⟩
    rw [hp] at hst
    cases hst
    rw [phase_after]
    exact ⟨_, rfl, trivial⟩
  | rouse | tick => exact .inl ht

/-! ## Registrations -/

theorem Shift.mem_of_mem {H H' : Holdings} {p p' : Stake} {ds : List Deal} {i : String}
    (h : Shift me H p ds H' p') (hl : (i, l) ∈ H'.entries table) :
    (i, l) ∈ H.entries table ∨ l = H.fresh := by
  have hremove {j : TableId} {k : LockId} (hl : (i, l) ∈ (H.remove j k).entries table) :
      (i, l) ∈ H.entries table := by
    unfold Holdings.remove at hl
    split at hl
    · simp only at hl
      split at hl
      · next ht => rw [ht]; exact (List.mem_filter.mp hl).1
      · exact hl
    · exact hl
  cases h with
  | create => exact (Holdings.mem_create.mp hl).imp_right fun h => h.2.2
  | discard | remove => exact .inl (hremove hl)
  | _ => exact .inl hl

theorem System.mem_locks_of_moved {s s' : System} {move : Move} (hs : s.Reached)
    (hm : s.Moved move s') (hw : t ∈ (s.memory.lock l).mutex.waiters)
    (hl : l ∈ (s'.memory.table table).locks) : l ∈ (s.memory.table table).locks := by
  obtain ⟨H, ⟨-, hg⟩, hH⟩ := holdings_of_moved hs hm
  obtain ⟨⟨i, j⟩, hmem, rfl⟩ := List.mem_map.mp hl
  have hmem : (i, j) ∈ s'.memory.holdings.entries table := hmem
  rw [hg] at hmem
  rcases hH with rfl | ⟨u, p, ds, p', -, hsh⟩
  · exact List.mem_map_of_mem hmem
  · rcases hsh.mem_of_mem hmem with hmem | hj
    · exact List.mem_map_of_mem hmem
    · have hd : s.memory.lock j = default := Arena.get_of_fresh_le (Nat.le_of_eq hj.symm)
      rw [hd] at hw
      cases hw

namespace Session

variable {x y z : Session}

theorem Reachable.mem_liveTables (hx : x.Reachable) {e : Errand} {d : Option Nat} {s : WaitStage}
    (hp : x.phase t = .waiting e d s) (hl : e.lock ∈ (x.memory.table table).locks) :
    table ∈ x.memory.liveTables := by
  obtain ⟨⟨i, j⟩, hmem, hj⟩ := List.mem_map.mp hl
  obtain rfl : j = e.lock := hj
  have hk := hx.orderly.2.knows t
  simp only [hp] at hk
  cases e with
  | plain => exact hk.elim
  | attempt a left =>
    obtain ⟨home, ht, hh⟩ := hk
    obtain rfl : table = home := hh.sole hmem
    refine hx.referenced.mem_liveTables (t := t) ?_
    rw [hp]
    show table ∈ a.table.toList
    rw [ht]
    exact List.mem_singleton_self _

/-! ## Who sleeps is sought -/

/-- If `t` sleeps on a registered lock or is about to, one of the threads with `W` has still to look
at that lock. -/
def Watched (x : Session) (t : ThreadId) (W : ThreadId → Prop) : Prop :=
  ∀ l table, x.system.Drowsy t l → l ∈ (x.memory.table table).locks →
    ∃ i, W i ∧ (x.phase i).Seeks t table l

theorem Watched.move {W : ThreadId → Prop} (h : x.Watched t W) (hx : x.Reachable)
    (hf : x.memory.isInterrupted t) {move : Move} (hy : x.move move = some y) :
    y.Watched t W := by
  intro l table hd hl
  have hm : x.system.Moved move y.system := moved hy
  have hd₀ : x.system.Drowsy t l := System.drowsy_of_moved hm hf hd
  obtain ⟨⟨e, d, s, hp, rfl⟩, hw⟩ := hx.reached.waits_of_drowsy hd₀
  have hl₀ : e.lock ∈ (x.memory.table table).locks :=
    System.mem_locks_of_moved hx.reached hm hw hl
  obtain ⟨i, hi, s', hs', hcov⟩ := h _ _ hd₀ hl₀
  by_cases hact : move = .act i
  · subst hact
    generalize hs₁ : y.system = s₁ at hm
    cases hm with
    | @act _ st hst =>
      have hnext : interrupt x.memory t s' = some st := by
        have hp' : x.system.phase i = .interrupting t s' := hs'
        rw [hp'] at hst
        exact hst
      rcases interrupt_seeks hnext hcov (hx.mem_liveTables hp hl₀) hl₀ hw with hsk | ⟨hf, hsl⟩
      · refine ⟨i, hi, ?_⟩
        show (y.system.phase i).Seeks t table e.lock
        rw [hs₁, System.phase_after]
        exact hsk
      · have ht : t ≠ i := by
          rintro rfl
          exact absurd (hp.symm.trans hs') nofun
        rw [hs₁] at hd
        exact absurd hd (hx.reached.not_drowsy_of_cleared ht hf hsl)
  · have hne : x.system.phase i ≠ .idle := fun hn => absurd (hs'.symm.trans hn) nofun
    exact ⟨i, hi, s', (System.phase_of_moved hm hne hact).trans hs', hcov⟩

theorem Reachable.watched (hx : x.Reachable) (hf : x.memory.isInterrupted t) :
    x.Watched t fun _ => True := by
  induction hx with
  | start => exact absurd hf Bool.false_ne_true
  | @move x y m hx _ hy ih =>
    by_cases hf₀ : x.memory.isInterrupted t
    · exact (ih hf₀).move hx hf₀ hy
    · obtain ⟨i, hi⟩ := (System.seeks_of_moved (moved hy) hf).resolve_left hf₀
      exact fun l table _ _ => ⟨i, trivial, hi l table⟩

/-- Users do as they may, and the flag of `t` is not taken down. -/
abbrev Unheeded (t : ThreadId) (x : Session) (m : Move) : Prop :=
  x.allows m ∧ ∀ y ∈ x.move m, y.memory.isInterrupted t

theorem Watched.leads {W : ThreadId → Prop} (h : x.Watched t W) (hx : x.Reachable)
    (hf : x.memory.isInterrupted t) (hy : Leads (Unheeded t) x y) :
    y.Watched t W ∧ y.memory.isInterrupted t := by
  induction hy with
  | refl => exact ⟨h, hf⟩
  | @move y z m hxy hm hz ih =>
    have hy : y.Reachable := (hxy.mono fun _ _ => And.left).reach hx
    exact ⟨ih.1.move hy ih.2 hz, hm.2 z hz⟩

theorem Watched.not_asleep {W : ThreadId → Prop} (h : x.Watched t W)
    (hW : ∀ i, W i → ∀ s, x.phase i ≠ .interrupting t s) (hl : l ∈ x.memory.liveLocks) :
    x.system.asleepOn t ≠ some l := by
  intro ha
  obtain ⟨table, -, hl⟩ := List.mem_flatMap.mp hl
  have hd : x.system.Drowsy t l := .inr (System.stage?_of_asleepOn ha)
  obtain ⟨i, hi, s, hs, -⟩ := h _ _ hd hl
  exact hW i hi s hs

theorem watched_of_raise {i : ThreadId} (hx : x.Reachable)
    (hi : x.phase i = .interrupting t .raise) (hy : x.move (.act i) = some y)
    (hyz : Leads (Unheeded t) y z) (hz : z.phase i = .idle) :
    z.Reachable ∧ z.memory.isInterrupted t ∧ z.Watched t fun _ => False := by
  have hok : x.allows (.act i) := by simp only [allows, hi]
  have hyr : y.Reachable := hx.move hok hy
  obtain ⟨st, hst, he⟩ := of_move_act hy
  rw [hi] at hst
  cases hst
  have hf : y.memory.isInterrupted t := by
    rw [he, Memory.isInterrupted_iff]
    exact Memory.mem_interrupt.mpr (.inr rfl)
  have hphase : y.phase i = .interrupting t .listTables := by
    rw [he]
    exact Arena.get_set_self ..
  have hw : y.Watched t (· = i) := fun l table _ _ => ⟨i, rfl, _, hphase, trivial⟩
  obtain ⟨hw, hf⟩ := hw.leads hyr hf hyz
  refine ⟨(hyz.mono fun _ _ => And.left).reach hyr, hf, fun l table hd hl => ?_⟩
  obtain ⟨j, rfl, s, hs, -⟩ := hw l table hd hl
  rw [hz] at hs
  cases hs

/-- **No interrupt is lost.** Thread `i` raises the flag of `t`, goes on and is done. As long as the
flag stays up from then on, `t` does not sleep on a lock of a live table, unless a wake-up is on its
way. So when all threads are idle or asleep, none that sleeps on such a lock has its flag up. -/
theorem not_asleep_of_interrupted (hx : x.Reachable) (t : ThreadId) :
    (∀ i y z v, x.phase i = .interrupting t .raise → x.move (.act i) = some y →
      Leads (Unheeded t) y z → z.phase i = .idle → Leads (Unheeded t) z v →
      ∀ l ∈ v.memory.liveLocks, v.system.asleepOn t ≠ some l) ∧
    (x.AtRest → ∀ l ∈ x.memory.liveLocks, x.system.asleepOn t = some l →
      ¬ x.memory.isInterrupted t) := by
  constructor
  · intro i y z v hi hy hyz hz hzv l hl
    obtain ⟨hzr, hf, hw⟩ := watched_of_raise hx hi hy hyz hz
    exact (hw.leads hzr hf hzv).1.not_asleep (fun _ h => h.elim) hl
  · intro hr l hl ha hf
    refine (hx.watched hf).not_asleep (fun i _ s hs => ?_) hl ha
    rcases hr i with (hi : x.phase i = .idle) | hi
    · rw [hi] at hs
      cases hs
    · obtain ⟨j, hj⟩ := Option.isSome_iff_exists.mp hi
      obtain ⟨e, d, hp, -⟩ := System.asleepOn_eq_some_iff.mp hj
      exact absurd (hp.symm.trans hs) nofun

/-- Thread 1 has "a". Thread 2 has looked at its flag and is about to sleep until it gets "a", when
thread 3 is about to raise that flag. -/
def overlooked : List Move := List.flatten
  [[.call 0 (.act (.makeTable .unbounded false)), .act 0, .call 1 (.obtain 0 "a")],
    List.replicate 4 (.act 1), [.call 2 (.obtain 0 "a")], List.replicate 16 (.act 2),
    [.call 3 (.interrupt 2)]]

/-- Thread 2 falls asleep, and thread 3 finds it. -/
def found : List Move := .act 2 :: List.replicate 6 (.act 3)

/-- Thread 2 comes back from its wait, asks for "a" again and sleeps. -/
def undeterred : List Move := List.flatten
  [overlooked, [.act 3], found, List.replicate 2 (.act 2), [.call 2 (.obtain 0 "a")],
    List.replicate 17 (.act 2)]

theorem not_asleep_of_interrupted_overlooked :
    (∃ x y z, run Allowed {} overlooked = some x ∧ (x.phase 2).stage? 0 = some .doze ∧
      x.phase 3 = .interrupting 2 .raise ∧ x.move (.act 3) = some y ∧
      run (Unheeded 2) y found = some z ∧ z.phase 3 = .idle ∧ z.memory.isInterrupted 2 ∧
      0 ∈ z.memory.liveLocks ∧ z.system.asleepOn 2 ≠ some 0) ∧
    ∃ x, run Allowed {} undeterred = some x ∧ x.AtRest ∧ 0 ∈ x.memory.liveLocks ∧
      x.system.asleepOn 2 = some 0 ∧ ¬ x.memory.isInterrupted 2 := by
  constructor
  · have hx : ∃ x, run Allowed {} overlooked = some x ∧ x.Reachable ∧
        (x.phase 2).stage? 0 = some .doze ∧ x.phase 3 = .interrupting 2 .raise ∧
        ((x.move (.act 3)).any fun y => (run (Unheeded 2) y found).any fun z =>
          z.phase 3 = .idle ∧ z.memory.isInterrupted 2 ∧ 0 ∈ z.memory.liveLocks) = true :=
      exists_of_run (by decide +kernel)
    obtain ⟨x, hr, hx, hd, hi, hany⟩ := hx
    obtain ⟨y, hy, hany⟩ := (Option.any_eq_true _ _).mp hany
    obtain ⟨z, hz, hdec⟩ := (Option.any_eq_true _ _).mp hany
    obtain ⟨hidle, hf, hl⟩ := of_decide_eq_true hdec
    exact ⟨x, y, z, hr, hd, hi, hy, hz, hidle, hf, hl,
      (not_asleep_of_interrupted hx 2).1 3 y z z hi hy (Leads.refl.run hz) hidle .refl 0 hl⟩
  · have hx : ∃ x, run Allowed {} undeterred = some x ∧ x.Reachable ∧
        x.AtRest ∧ 0 ∈ x.memory.liveLocks ∧ x.system.asleepOn 2 = some 0 :=
      exists_of_run (by decide +kernel)
    obtain ⟨x, hr, hx, h₀, hl, ha⟩ := hx
    exact ⟨x, hr, h₀, hl, ha, (not_asleep_of_interrupted hx 2).2 h₀ 0 hl ha⟩

end Session

end

end KeyedLocks
