import KeyedLocks.Proofs.Solo

/-!
# What a release does

A release gives back one hold, takes it again as a probe, looks how many holds there are now, and
gives the probe back. When nobody else moves the probe is not to be seen afterwards. If more holds
are left, the release has taken one from their count, and that is all. If that was the last hold,
the lock is free and closed, and it is out of the table if it was what the table had under its
identifier; no other lock, and no other entry of any table, is touched (`System.release_exact`).

`Releaser.At` lists the memories a release goes through, stage by stage.
-/

namespace KeyedLocks

/-- The lock with an owner that has `n` holds. -/
def Lock.heldBy (k : Lock) (t : ThreadId) (n : Nat) : Lock :=
  { k with mutex := { k.mutex with owner := some t, holds := n } }

/-- The lock without owner. -/
def Lock.freed (k : Lock) : Lock := { k with mutex := { k.mutex with owner := none, holds := 0 } }

/-- The lock with nobody asleep on it. -/
def Lock.awake (k : Lock) : Lock := { k with sleepers := [] }

/-- The lock, closed. -/
def Lock.shut (k : Lock) : Lock := { k with closed := true }

namespace Lock

variable {k : Lock} {t : ThreadId} {n : Nat}

theorem eq_heldBy (ho : k.mutex.owner = some t) (hn : k.mutex.holds = n) : k = k.heldBy t n := by
  subst hn
  unfold heldBy
  rw [← ho]

@[simp] theorem mutex_awake (k : Lock) : k.awake.mutex = k.mutex := rfl

@[simp] theorem mutex_shut (k : Lock) : k.shut.mutex = k.mutex := rfl

theorem take?_freed (k : Lock) (t : ThreadId) :
    k.freed.mutex.take? t = some (k.heldBy t 1).mutex := rfl

theorem take?_heldBy (k : Lock) (t : ThreadId) (n : Nat) :
    (k.heldBy t n).mutex.take? t = some (k.heldBy t (n + 1)).mutex := if_pos rfl

theorem holdsOf_heldBy (k : Lock) (t : ThreadId) (n : Nat) : (k.heldBy t n).mutex.holdsOf t = n :=
  if_pos rfl

theorem isLocked_heldBy (k : Lock) (t : ThreadId) (n : Nat) : (k.heldBy t n).mutex.isLocked := rfl

theorem isLocked_freed (k : Lock) : ¬ k.freed.mutex.isLocked := nofun

theorem release?_heldBy (hn : 1 < n) :
    (k.heldBy t n).mutex.release? t = some (k.heldBy t (n - 1)).mutex := by
  have ho : (k.heldBy t n).mutex.owner = some t := rfl
  have h0 : n - 1 ≠ 0 := by omega
  rw [Mutex.release?, if_pos ho]
  exact if_neg h0

theorem release?_heldBy_one (k : Lock) (t : ThreadId) :
    (k.heldBy t 1).mutex.release? t = some k.freed.mutex := if_pos rfl

end Lock

namespace Releaser

section
variable {m m' : Memory} {t : ThreadId} {now n : Nat} {g : Handle} {who : Releaser}
  {s : ReleaseStage} {st : Step} {k : Lock}

/-- The memory at a stage of a release of `g`, which `t` began in memory `m` with `n` holds. -/
inductive At (m : Memory) (t : ThreadId) (n : Nat) (g : Handle) : ReleaseStage → Memory → Prop where
  | unlock : At m t n g .unlock m
  -- Some holds are left.
  | probe : 1 < n → At m t n g .probe (m.put g.lock ((m.lock g.lock).heldBy t (n - 1)))
  | count : 1 < n → At m t n g .count (m.put g.lock ((m.lock g.lock).heldBy t n))
  | unprobe : 1 < n → At m t n g .unprobe (m.put g.lock ((m.lock g.lock).heldBy t n))
  -- That was the last one.
  | notify : n = 1 → At m t n g .notify (m.put g.lock (m.lock g.lock).freed)
  | probeFree : n = 1 → At m t n g .probe (m.put g.lock (m.lock g.lock).freed.awake)
  | countOne : n = 1 → At m t n g .count (m.put g.lock ((m.lock g.lock).heldBy t 1).awake)
  | close : n = 1 → At m t n g .close (m.put g.lock ((m.lock g.lock).heldBy t 1).awake)
  | remove : n = 1 → At m t n g .remove (m.put g.lock ((m.lock g.lock).heldBy t 1).awake.shut)
  | unprobeOne : n = 1 → At m t n g .unprobe
      ((m.removeEntry g.table g.lock).put g.lock ((m.lock g.lock).heldBy t 1).awake.shut)
  | notifyProbe : n = 1 → At m t n g .notifyProbe
      ((m.removeEntry g.table g.lock).put g.lock (m.lock g.lock).freed.awake.shut)

/-- The memory a release leaves, but for the reference that it took. -/
def after (m : Memory) (t : ThreadId) (n : Nat) (g : Handle) : Memory :=
  if n = 1 then (m.removeEntry g.table g.lock).put g.lock (m.lock g.lock).freed.awake.shut
  else m.put g.lock ((m.lock g.lock).heldBy t (n - 1))

/-- A release that runs alone is at a stage further on, or it is over. -/
def Advances (m : Memory) (t : ThreadId) (n : Nat) (g : Handle) (who : Releaser) (s : ReleaseStage)
    (st : Step) : Prop :=
  (∃ s', st.phase = .releasing g who s' ∧ At m t n g s' st.memory ∧ s'.left < s.left ∧
    ∀ o, .returned o ∉ st.notes) ∨
  st.phase = .idle ∧ st.memory = (after m t n g).forgo g.table ∧ st.notes = [.returned .released]

theorem advances_of_on {s' : ReleaseStage} (h : At m t n g s' m') (hl : s'.left < s.left) :
    Advances m t n g who s (.moveTo m' (.releasing g who s')) :=
  .inl ⟨s', rfl, h, hl, fun _ => List.not_mem_nil⟩

theorem advances_of_conclude (hm : m' = after m t n g) :
    Advances m t n g who s (who.conclude g m' (.ok ())) := by
  subst hm
  cases who <;> exact .inr ⟨rfl, rfl, rfl⟩

/-- The first action gives the hold back: others are left, or that was the last one. -/
theorem unlock_advances (ho : (m.lock g.lock).mutex.owner = some t)
    (hn : (m.lock g.lock).mutex.holds = n) (hpos : 0 < n)
    (hst : who.release t m g .unlock = some st) : Advances m t n g who .unlock st := by
  simp only [release] at hst
  obtain ⟨-, rfl⟩ := Memory.critical_eq_some_iff.mp hst
  have hk : m.lock g.lock = (m.lock g.lock).heldBy t n := Lock.eq_heldBy ho hn
  by_cases h1 : n = 1
  · subst h1
    have hlast : (m.lock g.lock).mutex.release? t = some (m.lock g.lock).freed.mutex := by
      rw [hk]
      exact Lock.release?_heldBy_one ..
    rw [hlast]
    dsimp only
    rw [if_neg (Lock.isLocked_freed _)]
    exact advances_of_on (.notify rfl) (by decide)
  · have h1 : 1 < n := by omega
    have hmore : (m.lock g.lock).mutex.release? t =
        some ((m.lock g.lock).heldBy t (n - 1)).mutex := by
      rw [hk]
      exact Lock.release?_heldBy h1
    rw [hmore]
    dsimp only
    rw [if_pos (Lock.isLocked_heldBy ..)]
    exact advances_of_on (.probe h1) (by decide)

/-- Whether the table has the lock or not, it does not have it afterwards. -/
theorem remove_advances (h1 : n = 1) (hst : who.release t
    (m.put g.lock ((m.lock g.lock).heldBy t 1).awake.shut) g .remove = some st) :
    Advances m t n g who .remove st := by
  simp only [release, Option.some.injEq] at hst
  obtain rfl := hst
  refine .inl ⟨.unprobe, ?_, ?_, by decide, fun o ho => ?_⟩
  · split <;> rfl
  · have hm : (m.put g.lock ((m.lock g.lock).heldBy t 1).awake.shut).removeEntry g.table g.lock =
        (m.removeEntry g.table g.lock).put g.lock ((m.lock g.lock).heldBy t 1).awake.shut :=
      Memory.removeEntry_put rfl
    split <;> exact hm ▸ .unprobeOne h1
  · split at ho
    · cases Step.returned_of_emit ho
    · cases ho

/-- **Every action of a release that runs alone leads to the next stage, or is the last one.** -/
theorem At.next (h : At m t n g s m') (ho : (m.lock g.lock).mutex.owner = some t)
    (hn : (m.lock g.lock).mutex.holds = n) (hpos : 0 < n)
    (hst : who.release t m' g s = some st) : Advances m t n g who s st := by
  cases h with
  | unlock => exact unlock_advances ho hn hpos hst
  | notify h1 =>
    cases hst
    rw [Memory.notifyAll, Memory.modifyLock_put]
    exact advances_of_on (.probeFree h1) (by decide)
  | probe h1 =>
    simp only [release] at hst
    obtain ⟨-, rfl⟩ := Memory.critical_eq_some_iff.mp hst
    rw [Memory.lock_put_self, Lock.take?_heldBy, Nat.sub_add_cancel hpos]
    dsimp only
    rw [Memory.setMutex, Memory.modifyLock_put]
    exact advances_of_on (.count h1) (by decide)
  | probeFree h1 =>
    simp only [release] at hst
    obtain ⟨-, rfl⟩ := Memory.critical_eq_some_iff.mp hst
    rw [Memory.lock_put_self, Lock.mutex_awake, Lock.take?_freed]
    dsimp only
    rw [Memory.setMutex, Memory.modifyLock_put]
    exact advances_of_on (.countOne h1) (by decide)
  | count h1 =>
    simp only [release] at hst
    obtain ⟨-, rfl⟩ := Memory.critical_eq_some_iff.mp hst
    rw [Memory.lock_put_self, Lock.holdsOf_heldBy, if_neg (by omega)]
    exact advances_of_on (.unprobe h1) (by decide)
  | countOne h1 =>
    simp only [release] at hst
    obtain ⟨-, rfl⟩ := Memory.critical_eq_some_iff.mp hst
    rw [Memory.lock_put_self, Lock.mutex_awake, if_pos (Lock.holdsOf_heldBy _ t 1)]
    exact advances_of_on (.close h1) (by decide)
  | close h1 =>
    cases hst
    rw [Memory.close, Memory.modifyLock_put]
    exact advances_of_on (.remove h1) (by decide)
  | remove h1 => exact remove_advances h1 hst
  | unprobe h1 =>
    simp only [release] at hst
    obtain ⟨-, rfl⟩ := Memory.critical_eq_some_iff.mp hst
    rw [Memory.lock_put_self, Lock.release?_heldBy h1]
    dsimp only
    rw [if_pos (Lock.isLocked_heldBy ..), Memory.setMutex, Memory.modifyLock_put]
    refine advances_of_conclude ?_
    rw [after, if_neg (by omega)]
    rfl
  | unprobeOne h1 =>
    simp only [release] at hst
    obtain ⟨-, rfl⟩ := Memory.critical_eq_some_iff.mp hst
    rw [Memory.lock_put_self, Lock.mutex_shut, Lock.mutex_awake, Lock.release?_heldBy_one]
    dsimp only
    rw [if_neg (Lock.isLocked_freed _), Memory.setMutex, Memory.modifyLock_put]
    exact advances_of_on (.notifyProbe h1) (by decide)
  | notifyProbe h1 =>
    cases hst
    rw [Memory.notifyAll, Memory.modifyLock_put]
    refine advances_of_conclude ?_
    rw [after, if_pos h1]
    rfl

end

end Releaser

/-! ## What is left when a release returns -/

theorem Table.find?_remove (x : Table) (i j : String) (l : LockId) :
    (x.remove i l).find? j = if j = i ∧ x.find? j = some l then none else x.find? j := by
  unfold remove holds
  by_cases hl : x.find? i = some l
  · rw [if_pos (by simpa using hl), find?, lookup_filter]
    by_cases hj : j = i
    · subst hj
      rw [if_pos rfl, if_pos ⟨rfl, hl⟩]
    · rw [if_neg hj, if_neg fun h => hj h.1]
      rfl
  · rw [if_neg (by simpa using hl), if_neg]
    rintro ⟨rfl, h⟩
    exact hl h

namespace Memory

variable {m m' : Memory} {g : Handle} {t : ThreadId} {n : Nat}

theorem modifyTable_modifyTable (m : Memory) (t : TableId) (f f' : Table → Table) :
    (m.modifyTable t f).modifyTable t f' = m.modifyTable t (f' ∘ f) := by
  simp only [modifyTable, Arena.modify, Arena.set_set, Arena.get_set_self, Function.comp_apply]

/-- To count one more reference and to take out an entry are independent. -/
theorem removeEntry_retain (m : Memory) (t : TableId) (l : LockId) :
    (m.retain t).removeEntry t l = (m.removeEntry t l).retain t := by
  have hcomm (i : String) :
      (Table.remove · i l) ∘ (fun x => { x with references := x.references + 1 }) =
        (fun x : Table => { x with references := x.references + 1 }) ∘ (Table.remove · i l) := by
    funext x
    have hx : Table.holds { x with references := x.references + 1 } i l = x.holds i l := rfl
    rw [Function.comp_apply, Function.comp_apply, Table.remove, Table.remove, hx]
    split <;> rfl
  refine (m.modifyTable_modifyTable t _ _).trans ?_
  refine Eq.trans ?_ (m.modifyTable_modifyTable t _ _).symm
  exact congrArg (m.modifyTable t) (hcomm _)

theorem isAlive_removeEntry (t j : TableId) (l : LockId) :
    (m.removeEntry t l).isAlive j = m.isAlive j := by
  have hr := congrFun (references_removeEntry (m := m) (t := t) l) j
  unfold isAlive
  exact congrArg (· != 0) hr

/-- The last hold of `g` was given back, and nothing else happened: the lock is free and closed, and
its entry is taken out if it is an entry of this lock. -/
structure Disposed (m : Memory) (g : Handle) (m' : Memory) : Prop where
  free : (m'.lock g.lock).mutex.owner = none
  closed : (m'.lock g.lock).closed
  lock : m'.lock g.lock = (m.lock g.lock).freed.awake.shut
  others : ∀ l, l ≠ g.lock → m'.lock l = m.lock l
  found : ∀ table i, (m'.table table).find? i =
    if (table = g.table ∧ i = (m.lock g.lock).identifier) ∧ (m.table table).find? i = some g.lock
      then none else (m.table table).find? i
  policy : ∀ table, (m'.table table).policy = (m.table table).policy
  references : ∀ table, m'.references table = m.references table
  registry : m'.registry = m.registry
  interrupted : m'.interrupted = m.interrupted

theorem disposed (m : Memory) (g : Handle) : m.Disposed g
    ((m.removeEntry g.table g.lock).put g.lock (m.lock g.lock).freed.awake.shut) := by
  have htable (j : TableId) :
      (((m.removeEntry g.table g.lock).put g.lock (m.lock g.lock).freed.awake.shut).table j) =
        if j = g.table then (m.table g.table).remove (m.lock g.lock).identifier g.lock
        else m.table j := table_modifyTable ..
  constructor
  · rw [lock_put_self]
    rfl
  · rw [lock_put_self]
    rfl
  · exact lock_put_self ..
  · intro l hl
    rw [lock_put, if_neg hl]
    rfl
  · intro j i
    rw [htable]
    by_cases hj : j = g.table
    · subst hj
      rw [if_pos rfl, Table.find?_remove]
      simp only [true_and]
    · rw [if_neg hj, if_neg fun h => hj h.1.1]
  · intro j
    rw [htable]
    split
    · next hj =>
      rw [hj, Table.remove]
      split <;> rfl
    · rfl
  · intro j
    exact congrFun (references_removeEntry g.lock) j
  · rfl
  · rfl

end Memory

namespace Releaser

variable {m m' : Memory} {t : ThreadId} {n : Nat} {g : Handle} {s : ReleaseStage}

theorem At.latch (h : At m t n g s m') : (m'.lock g.lock).latch = (m.lock g.lock).latch := by
  cases h with
  | unlock => rfl
  | _ =>
    rw [Memory.lock_put_self]
    rfl

theorem forgo_after (h : m.isAlive g.table) (t : ThreadId) (n : Nat) :
    (after (m.retain g.table) t n g).forgo g.table = after m t n g := by
  unfold after
  split
  · rw [Memory.removeEntry_retain]
    refine Memory.forgo_retain (m := (m.removeEntry g.table g.lock).put g.lock _) ?_
    exact (Memory.isAlive_removeEntry g.table g.table g.lock).trans h
  · exact Memory.forgo_retain (m := m.put g.lock _) h

end Releaser

namespace System

variable {s s' : System} {t : ThreadId} {g : Handle} {m : Memory} {n k j : Nat} {o : Outcome}

/-- Thread `t` is at a release of `g` that runs alone from memory `m` on. -/
structure Releases (t : ThreadId) (g : Handle) (m : Memory) (n : Nat) (j : Nat) (s : System) :
    Prop where
  waits : j = 0
  stage : ∃ w, s.phase t = .releasing g .handle w ∧ Releaser.At m t n g w s.memory

/-- A release that runs alone gives the hold back, and is over without a wait. -/
theorem Finishes.releases (h : Finishes t s k o s') (hs : Releases t g m n 0 s)
    (ho : (m.lock g.lock).mutex.owner = some t) (hn : (m.lock g.lock).mutex.holds = n)
    (hpos : 0 < n) : o = .released ∧ s'.memory = (Releaser.after m t n g).forgo g.table := by
  refine h.induct (P := Releases t g m n) (Q := fun _ o s' => o = .released ∧
    s'.memory = (Releaser.after m t n g).forgo g.table) ?_ ?_ ?_ hs
  · exact fun hp => ⟨hp.waits, hp.stage⟩
  · intro j s l hp hl
    obtain ⟨w, hw, -⟩ := hp.stage
    obtain ⟨e, d, he, -⟩ := asleepOn_eq_some_iff.mp hl
    rw [hw] at he
    cases he
  · intro j s st hp hst
    obtain ⟨w, hw, hat⟩ := hp.stage
    rw [hw] at hst
    rcases hat.next ho hn hpos hst with ⟨w', hw', hat', -, hr⟩ | ⟨hi, hm, hnotes⟩
    · refine .inl ⟨⟨?_, ⟨w', ?_, hat'⟩⟩, hr⟩
      · rw [hw]
        exact hp.waits
      · rw [phase_after]
        exact hw'
    · refine .inr ⟨hi, fun o ho => ⟨?_, hm⟩⟩
      rw [hnotes] at ho
      cases List.mem_singleton.mp ho
      rfl

/-- A release that runs alone returns if nobody is in a critical section of the lock. -/
theorem canFinish_release {w : ReleaseStage} (hw : s.phase t = .releasing g .handle w)
    (hat : Releaser.At m t n g w s.memory) (ho : (m.lock g.lock).mutex.owner = some t)
    (hn : (m.lock g.lock).mutex.holds = n) (hpos : 0 < n)
    (hf : (m.lock g.lock).latch = none) : CanFinish t s 0 .released := by
  induction hleft : w.left using Nat.strongRecOn generalizing s w with
  | _ _ ih =>
    subst hleft
    have hfree : (s.memory.lock g.lock).latch = none := hat.latch.trans hf
    have hsome : (Releaser.handle.release t s.memory g w).isSome := Releaser.release_isSome hfree w
    obtain ⟨st, hrel⟩ := Option.isSome_iff_exists.mp hsome
    have hst : (s.phase t).next t s.now s.memory = some st := by
      rw [hw]
      exact hrel
    have hquiet : (s.phase t).beginsWait = false := by
      rw [hw]
      rfl
    rcases hat.next ho hn hpos hrel with ⟨w', hw', hat', hlt, -⟩ | ⟨-, -, hnotes⟩
    · have hrest : CanFinish t (s.after t st) 0 .released :=
        ih _ hlt ((phase_after ..).trans hw') hat' rfl
      exact hrest.of_act hst hquiet
    · refine .of_last hst hquiet ?_
      rw [hnotes]
      exact .head _

/-- While someone else is in a critical section of the lock, a release does not begin. -/
theorem not_finishes_of_latch (hw : s.phase t = .releasing g .handle .unlock)
    (hl : (s.memory.lock g.lock).latch ≠ none) : ¬ Finishes t s k o s' := by
  intro h
  refine h.induct (j := 0) (Q := fun _ _ _ => False) (P := fun _ s =>
    s.phase t = .releasing g .handle .unlock ∧ (s.memory.lock g.lock).latch ≠ none)
    id ?_ ?_ ⟨hw, hl⟩
  · rintro j s l ⟨hw, -⟩ ha
    obtain ⟨e, d, he, -⟩ := asleepOn_eq_some_iff.mp ha
    rw [hw] at he
    cases he
  · rintro j s st ⟨hw, hl⟩ hst
    rw [hw] at hst
    have hrel : Releaser.handle.release t s.memory g .unlock = some st := hst
    simp only [Releaser.release] at hrel
    exact absurd (Memory.critical_eq_some_iff.mp hrel).1 hl

/-- **What a release does.** A release by the owner of a lock, with a reference to its table, that
runs alone returns unless someone else is inside the lock, and it never fails. It takes one from the
count of holds, and no more, if others are left. If not, the lock is free, closed and out of its
table, unless the table has another lock under its identifier, or none; nothing else changes. -/
theorem release_exact (hi : s.phase t = .idle) (ho : (s.memory.lock g.lock).mutex.owner = some t)
    (hn : (s.memory.lock g.lock).mutex.holds = n) (hpos : 0 < n)
    (ha : s.memory.isAlive g.table) :
    ((∃ k o s', Alone t (.release g) s k o s') ↔ (s.memory.lock g.lock).latch = none) ∧
    ∀ k o s', Alone t (.release g) s k o s' → o = .released ∧ (∀ u, s'.phase u = s.phase u) ∧
      (2 ≤ n → s'.memory = s.memory.setMutex g.lock
        { (s.memory.lock g.lock).mutex with holds := n - 1 }) ∧
      (n = 1 → s.memory.Disposed g s'.memory) := by
  have hcall {s₁ : System} (hc : s.call t (.release g) = some s₁) :
      Releases t g (s.memory.retain g.table) n 0 s₁ := by
    obtain ⟨-, rfl⟩ := call_eq_some_iff.mp hc
    exact ⟨rfl, .unlock, Arena.get_set_self .., .unlock⟩
  constructor
  · constructor
    · rintro ⟨k, o, s', s₁, hc, hf⟩
      by_contra hl
      have hw : s₁.phase t = .releasing g .handle .unlock := phase_of_call hc
      obtain ⟨-, rfl⟩ := call_eq_some_iff.mp hc
      exact not_finishes_of_latch hw hl hf
    · intro hl
      have hc : s.call t (.release g) = some _ := call_eq_some_iff.mpr ⟨hi, rfl⟩
      obtain ⟨w, hw, hat⟩ := (hcall hc).stage
      obtain ⟨s', hs'⟩ := canFinish_release hw hat ho hn hpos hl
      exact ⟨0, .released, s', _, hc, hs'⟩
  · intro k o s' h
    have hphase := h.phase_eq
    obtain ⟨s₁, hc, hf⟩ := h
    obtain ⟨rfl, hm⟩ := hf.releases (hcall hc) ho hn hpos
    rw [Releaser.forgo_after ha] at hm
    refine ⟨rfl, hphase, fun h2 => ?_, fun h1 => ?_⟩
    · rw [hm, Releaser.after, if_neg (by omega), Lock.heldBy, ← ho]
      rfl
    · rw [hm, Releaser.after, if_pos h1]
      exact s.memory.disposed g

/-- Thread 1 has "a", whose lock is closed from outside. When it obtains "a" once more it gets a new
lock, so that its first handle is for a lock the table does not have any more. -/
def replaced : List Move := List.flatten
  [taken, [.call 0 (.act (.close 0)), .act 0, .call 1 (.obtain 0 "a")], List.replicate 9 (.act 1)]

theorem release_exact_replaced : ∃ s ns k o s', run {} replaced = some (s, ns) ∧
    (s.memory.table 0).find? "a" = some 1 ∧ Alone 1 (.release ⟨0, 0⟩) s k o s' ∧ o = .released ∧
    s.memory.Disposed ⟨0, 0⟩ s'.memory := by
  have hx : ∃ s ns, run {} replaced = some (s, ns) ∧ s.Reached ∧
      (s.memory.table 0).find? "a" = some 1 ∧ s.phase 1 = .idle ∧
      (s.memory.lock 0).mutex.owner = some 1 ∧ (s.memory.lock 0).mutex.holds = 1 ∧
      s.memory.isAlive 0 = true ∧ (s.memory.lock 0).latch = none :=
    Reached.exists_of_run (by decide +kernel)
  obtain ⟨s, ns, hr, -, hfind, hi, ho, hn, ha, hl⟩ := hx
  obtain ⟨hreturns, heffect⟩ := release_exact (g := ⟨0, 0⟩) hi ho hn Nat.one_pos ha
  obtain ⟨k, o, s', halone⟩ := hreturns.mpr hl
  obtain ⟨hreleased, -, -, hdisposed⟩ := heffect k o s' halone
  exact ⟨s, ns, k, o, s', hr, hfind, halone, hreleased, hdisposed rfl⟩

end System

end KeyedLocks
