import KeyedLocks.Proofs.Bounded
import KeyedLocks.Proofs.HandBack

/-!
# Closed locks make way

A table may still have a closed lock under an identifier. A thread that asks for the identifier and
can take that lock (`Memory.Stale`) finds it closed, gives it back as it was, takes it out of the
table and looks again: then there is none (`Memory.shed`), and the thread gets a new one. None of
these actions depends on anything but the memory, so that one chain of them (`Stale.marches`) tells
that the call returns, that it is bounded, and what it leaves behind.

So a call that nobody disturbs looks an identifier up twice at most, and never returns a closed lock
(`System.obtains_past_closed`).
-/

namespace KeyedLocks

/-! ## What tables have -/

theorem Shift.tidy {me : ThreadId} {H H' : Holdings} {p p' : Stake} {ds : List Deal}
    (h : Shift me H p ds H' p') (ht : H.Tidy) : H'.Tidy := by
  cases h with
  | create _ _ hl => exact ht.create hl
  | discard | remove => exact ht.remove ..
  | close | rawClose => exact ht.close _
  | take | backOut | unlock | probe | unprobe | rawTake | rawRelease => exact ht.reheld _
  | rawMake =>
    refine ⟨ht.nodup, fun hm => ?_, fun hm => Nat.lt_succ_of_lt (ht.known hm), ht.sole⟩
    exact (if_neg (Nat.ne_of_lt (ht.known hm))).trans (ht.named hm)
  | _ => exact ht

namespace System

variable {s s' s₁ : System} {t : ThreadId} {table : TableId} {i : String} {l : LockId}

theorem Reached.tidy (hs : s.Reached) : s.memory.holdings.Tidy := by
  refine hs.induct (p := fun s => s.memory.holdings.Tidy) Holdings.tidy_default ?_
  intro s s' m hs ht hm
  obtain ⟨H, ⟨hn, hg⟩, hH⟩ := holdings_of_moved hs hm
  have ht' : H.Tidy := by
    rcases hH with rfl | ⟨u, p, ds, p', -, hsh⟩
    · exact ht
    · exact hsh.tidy ht
  rw [hg]
  exact ⟨ht'.nodup, ht'.named, fun hm => Nat.lt_of_lt_of_le (ht'.known hm) hn, ht'.sole⟩

end System

/-! ## Actions that the memory decides -/

/-- From phase `p` with memory `m` thread `t` comes to `p'` with `m'` by `n` actions, whatever the
time; none of them is a look-up or part of a wait. -/
inductive Marches (t : ThreadId) : Phase → Memory → Nat → Phase → Memory → Prop where
  | refl (p : Phase) (m : Memory) : Marches t p m 0 p m
  | act {p p₁ p' : Phase} {m m₁ m' : Memory} {n : Nat} : p.busy → p.looksUp = false →
      (∀ now, p.next t now m = some (.moveTo m₁ p₁)) → Marches t p₁ m₁ n p' m' →
      Marches t p m (n + 1) p' m'

namespace Marches

variable {t : ThreadId} {p p' : Phase} {m m' : Memory} {n looks k : Nat} {o : Outcome}
  {s s' : System}

theorem delivers {now : Nat} (h : Marches t p m n p' m') (hl : Delivers t p' m' now k o) :
    Delivers t p m now k o := by
  induction h with
  | refl => exact hl
  | act hb _ hst _ ih => exact .of_act (hst now) (Phase.beginsWait_of_busy hb) (ih hl)

theorem bounded (h : Marches t p m n p' m') {n' : Nat} (hb : Bounded t p' m' looks n') :
    Bounded t p m looks (n' + n) := by
  induction h with
  | refl => exact hb
  | act hbusy hl hst _ ih => exact .of_act hbusy hl hst (ih hb)

end Marches

namespace System

variable {s s' : System} {t : ThreadId} {p p' : Phase} {m m' : Memory} {n k : Nat} {o : Outcome}

theorem Finishes.next (h : Finishes t s k o s') (hb : (s.phase t).busy) :
    ∃ now st, (s.phase t).next t now s.memory = some st ∧ (.returned o ∈ st.notes ∨
      ∃ s₁, s₁.phase t = st.phase ∧ s₁.memory = st.memory ∧ Finishes t s₁ k o s') := by
  induction h with
  | @last s _ _ _ hact ho =>
    obtain ⟨st, hst, rfl, rfl⟩ := act_eq_some_iff.mp hact
    exact ⟨s.now, st, hst, .inl ho⟩
  | @act s s₁ _ k _ _ hact hf _ =>
    obtain ⟨st, hst, rfl, rfl⟩ := act_eq_some_iff.mp hact
    refine ⟨s.now, st, hst, .inr ⟨s.after t st, phase_after .., rfl, ?_⟩⟩
    rw [Phase.beginsWait_of_busy hb, Bool.toNat_false, Nat.zero_add]
    exact hf
  | rouse hr =>
    obtain ⟨l, hl, -⟩ := rouse_eq_some_iff.mp hr
    obtain ⟨e, d, he, -⟩ := asleepOn_eq_some_iff.mp hl
    exact absurd he (Phase.not_asleep_of_busy hb e d)
  | tick d _ ih => exact ih hb

/-- An action that the memory decides, and that returns nothing, leads on. -/
theorem Finishes.past {p₁ : Phase} {m₁ : Memory} (h : Finishes t s k o s')
    (hb : (s.phase t).busy)
    (hst : ∀ now, (s.phase t).next t now s.memory = some (.moveTo m₁ p₁)) :
    ∃ s₁, s₁.phase t = p₁ ∧ s₁.memory = m₁ ∧ Finishes t s₁ k o s' := by
  obtain ⟨now, st, hst', hrest⟩ := h.next hb
  cases (hst now).symm.trans hst'
  rcases hrest with ho | hrest
  · cases ho
  · exact hrest

theorem Finishes.marches (h : Finishes t s k o s') (hm : Marches t p m n p' m')
    (hp : s.phase t = p) (hs : s.memory = m) :
    ∃ s₁, s₁.phase t = p' ∧ s₁.memory = m' ∧ Finishes t s₁ k o s' := by
  induction hm generalizing s with
  | refl => exact ⟨s, hp, hs, h⟩
  | act hb _ hst _ ih =>
    subst hp hs
    obtain ⟨s₁, hp₁, hm₁, hf⟩ := h.past hb hst
    exact ih hf hp₁ hm₁

end System

/-! ## What a closed lock leaves behind -/

theorem Mutex.release?_of_take? {x y : Mutex} {t : ThreadId} (hw : x.Wf) (h : x.take? t = some y) :
    y.release? t = some x := by
  obtain ⟨owner, holds, waiters⟩ := x
  rcases take?_eq_some_iff.mp h with ⟨ho, rfl⟩ | ⟨ho, rfl⟩
  · have hh : holds = 0 := hw.mp ho
    cases ho
    subst hh
    exact if_pos rfl
  · have hh : holds ≠ 0 := fun hh => nomatch ho.symm.trans (hw.mpr hh)
    cases ho
    exact (if_pos rfl).trans (if_neg hh)

namespace Memory

variable {M m : Memory} {t : ThreadId} {table : TableId} {i : String} {l : LockId} {x : Mutex}

/-- The table has a lock for the identifier that is closed, and `t` could take it. -/
structure Stale (M : Memory) (t : ThreadId) (table : TableId) (i : String) (l : LockId) : Prop where
  found : (M.table table).find? i = some l
  named : (M.lock l).identifier = i
  known : l < M.locks.fresh
  wf : (M.lock l).mutex.Wf
  closed : (M.lock l).closed
  free : ∃ x, (M.lock l).mutex.take? t = some x

/-- The memory after a thread has taken a lock and given it back: if nobody had it, those asleep on
it have been woken. -/
def visited (M : Memory) (l : LockId) : Memory :=
  if (M.lock l).mutex.owner = none then M.notifyAll l else M

/-- The memory without the entry of a lock that turned out to be closed. -/
def shed (M : Memory) (table : TableId) (l : LockId) : Memory := (M.visited l).removeEntry table l

theorem identifier_visited (M : Memory) (l : LockId) :
    ((M.visited l).lock l).identifier = (M.lock l).identifier := by
  unfold visited
  split
  · rw [notifyAll, lock_modifyLock, if_pos rfl]
  · rfl

theorem table_visited (M : Memory) (l : LockId) (j : TableId) :
    (M.visited l).table j = M.table j := by
  unfold visited
  split <;> rfl

@[simp] theorem mutexes_visited (M : Memory) (l : LockId) : (M.visited l).mutexes = M.mutexes := by
  unfold visited
  split
  · exact mutexes_notifyAll
  · rfl

@[simp] theorem mutexes_shed : (M.shed table l).mutexes = M.mutexes := mutexes_visited M l

theorem find?_shed (M : Memory) (table j : TableId) (l : LockId) (i : String) :
    ((M.shed table l).table j).find? i =
      if (j = table ∧ i = (M.lock l).identifier) ∧ (M.table j).find? i = some l then none
      else (M.table j).find? i := by
  rw [shed, removeEntry, table_modifyTable, identifier_visited, table_visited, table_visited]
  by_cases hj : j = table
  · subst hj
    rw [if_pos rfl, Table.find?_remove]
    simp only [true_and]
  · rw [if_neg hj, if_neg fun h => hj h.1.1]

theorem fresh_shed_ge (M : Memory) (table : TableId) (l : LockId) :
    M.locks.fresh ≤ (M.shed table l).locks.fresh := by
  show M.locks.fresh ≤ (M.visited l).locks.fresh
  unfold visited
  split
  · exact fresh_modifyLock_ge ..
  · exact Nat.le_refl _

theorem shed_retain (M : Memory) (table : TableId) (l : LockId) :
    (M.retain table).shed table l = (M.shed table l).retain table := by
  have hv : (M.retain table).visited l = (M.visited l).retain table := by
    unfold visited
    rw [apply_ite (retain · table)]
    rfl
  rw [shed, hv, removeEntry_retain, shed]

namespace Stale

variable (h : M.Stale t table i l)
include h

theorem find?_shed : ((M.shed table l).table table).find? i = none := by
  rw [Memory.find?_shed, if_pos ⟨⟨rfl, h.named.symm⟩, h.found⟩]

theorem open_shed : (M.shed table l).Open t table i := by
  intro j hj
  rw [h.find?_shed] at hj
  cases hj

theorem setMutex_back (x : Mutex) : (M.setMutex l x).setMutex l (M.lock l).mutex = M := by
  refine (modifyLock_put ..).trans ?_
  exact put_lock_self h.known

/-! ### The actions of a thread that finds it -/

variable {now : Nat} {policy : Policy}

theorem next_readClosed : (Phase.readClosed ⟨l, policy, some table⟩).next t now (M.setMutex l x) =
    some (.moveTo (M.setMutex l x) (.backOut ⟨l, policy, some table⟩)) := by
  have hclosed : ((M.setMutex l x).lock l).closed := by
    rw [setMutex, lock_modifyLock, if_pos rfl]
    exact h.closed
  show some (Attempt.readClosed _ _) = _
  rw [Attempt.readClosed, if_pos hclosed]

theorem next_backOut (hl : (M.lock l).latch = none) (hx : (M.lock l).mutex.take? t = some x) :
    (Phase.backOut ⟨l, policy, some table⟩).next t now (M.setMutex l x) =
      some (.moveTo M (if (M.lock l).mutex.owner = none then .notifyBackOut ⟨l, policy, some table⟩
        else .discard ⟨l, policy, some table⟩)) := by
  have hlock : (M.setMutex l x).lock l = { M.lock l with mutex := x } := by
    rw [setMutex, lock_modifyLock, if_pos rfl]
  show Attempt.backOut t (M.setMutex l x) _ = _
  refine critical_eq_some_iff.mpr ⟨?_, ?_⟩
  · rw [hlock]
    exact hl
  · rw [hlock, Mutex.release?_of_take? h.wf hx]
    dsimp only
    rw [h.setMutex_back, Mutex.isLocked]
    cases (M.lock l).mutex.owner <;> rfl

theorem next_discard : (Phase.discard ⟨l, policy, some table⟩).next t now (M.visited l) =
    some (.moveTo (M.shed table l) (.lookUp table i)) := by
  show some (Step.moveTo _ (.lookUp table ((M.visited l).lock l).identifier)) = _
  rw [identifier_visited, h.named]
  rfl

/-- The thread takes the lock, gives it back, takes it out of the table, and is to look again. -/
theorem marches (hl : (M.lock l).latch = none) : ∃ n,
    Marches t (.tryTake (.ofEntry M table l)) M n (.lookUp table i) (M.shed table l) := by
  obtain ⟨x, hx⟩ := h.free
  have hlast : Marches t (.discard (.ofEntry M table l)) (M.visited l) 1 (.lookUp table i)
      (M.shed table l) := .act rfl rfl (fun _ => h.next_discard) (.refl ..)
  have hback {n : Nat} (hrest : Marches t (if (M.lock l).mutex.owner = none then
        .notifyBackOut (.ofEntry M table l) else .discard (.ofEntry M table l)) M n
        (.lookUp table i) (M.shed table l)) :
      Marches t (.tryTake (.ofEntry M table l)) M (n + 3) (.lookUp table i) (M.shed table l) :=
    .act rfl rfl (fun _ => Attempt.next_tryTake_of_take? hl hx)
      (.act rfl rfl (fun _ => h.next_readClosed)
        (.act rfl rfl (fun _ => h.next_backOut hl hx) hrest))
  by_cases ho : (M.lock l).mutex.owner = none
  · rw [visited, if_pos ho] at hlast
    refine ⟨5, hback ?_⟩
    rw [if_pos ho]
    exact .act rfl rfl (fun _ => rfl) hlast
  · rw [visited, if_neg ho] at hlast
    refine ⟨4, hback ?_⟩
    rw [if_neg ho]
    exact hlast

theorem not_registered (ht : M.holdings.Tidy) (j : TableId) (i' : String) :
    ((M.shed table l).table j).find? i' ≠ some l := by
  rw [Memory.find?_shed]
  split
  · exact nofun
  · next hn =>
    intro hf
    refine hn ⟨⟨?_, ?_⟩, hf⟩
    · exact ht.sole (mem_of_lookup hf) (mem_of_lookup h.found)
    · exact (ht.named (mem_of_lookup hf)).symm

theorem retain : (M.retain table).Stale t table i l where
  found := (find?_retain ..).trans h.found
  named := h.named
  known := h.known
  wf := h.wf
  closed := h.closed
  free := h.free

end Stale

theorem Open.retain (h : M.Open t table i) : (M.retain table).Open t table i := by
  intro l hf
  rw [find?_retain] at hf
  exact h l hf

theorem Enlists.eq_or_find? {j : TableId} {i' : String} {k : LockId} (h : M.Enlists table i m l)
    (hf : (m.table j).find? i' = some k) : k = l ∨ (M.table j).find? i' = some k := by
  cases h with
  | registered => exact .inr hf
  | fresh =>
    rw [addEntry, table_modifyTable] at hf
    split at hf
    · next hj =>
      subst hj
      have happ : ((M.table j).entries ++ [(i, M.locks.fresh)]).lookup i' = some k := hf
      rw [List.lookup_append] at happ
      rcases Option.or_eq_some_iff.mp happ with hold | ⟨-, hnew⟩
      · exact .inr hold
      · exact .inl (congrArg Prod.snd (List.mem_singleton.mp (mem_of_lookup hnew)))
    · exact .inr hf

/-- Thread `t` got lock `l` for the identifier: the lock is registered and open, `t` has one hold
more on it, and all other locks are owned and waited for as before. -/
structure Obtains (m : Memory) (t : ThreadId) (table : TableId) (i : String) (l : LockId)
    (m' : Memory) : Prop where
  found : (m'.table table).find? i = some l
  unclosed : (m'.lock l).closed = false
  held : ∀ u j, (m'.lock j).mutex.holdsOf u =
    (m.lock j).mutex.holdsOf u + if u = t ∧ j = l then 1 else 0
  others : ∀ j, j ≠ l → (m'.lock j).mutex = (m.lock j).mutex

theorem Grants.obtains {m' : Memory} (h : M.Grants t table i l m') (hm : M.mutexes = m.mutexes) :
    m.Obtains t table i l m' := by
  refine ⟨h.found, h.unclosed, fun u j => ?_, fun j hj => ?_⟩
  · have hlock : (M.lock j).mutex = (m.lock j).mutex := congrFun hm j
    rw [h.held, hlock]
  · obtain ⟨m₁, x, he, -, rfl⟩ := h.change
    have hother : (m₁.setMutex l x).mutexes j = m₁.mutexes j := by
      rw [mutexes_setMutex, Function.update_of_ne hj]
    exact hother.trans (congrFun (he.mutexes.trans hm) j)

/-- Who gets a lock after that gets another one, and no table has the closed one any more. -/
theorem Stale.gone {m' : Memory} {l' : LockId} (h : M.Stale t table i l) (ht : M.holdings.Tidy)
    (hg : (M.shed table l).Grants t table i l' m') :
    l ≠ l' ∧ ∀ j i', (m'.table j).find? i' ≠ some l := by
  obtain ⟨m₁, x, he, -, rfl⟩ := hg.change
  have hne : l ≠ l' := by
    cases he with
    | registered hf =>
      rw [find?_retain, h.find?_shed] at hf
      cases hf
    | fresh => exact Nat.ne_of_lt (Nat.lt_of_lt_of_le h.known (fresh_shed_ge M table l))
  refine ⟨hne, fun j i' hf => ?_⟩
  rcases he.eq_or_find? hf with heq | hold
  · exact hne heq
  · unfold Table.find? at hold
    rw [entries_retain] at hold
    exact h.not_registered ht j i' hold

end Memory

/-! ## Calls -/

namespace System

variable {s s' : System} {t : ThreadId} {table : TableId} {i : String} {l : LockId} {k : Nat}
  {o : Outcome}

/-- What `t` waits for when it finds lock `l` comes to its end: nobody is inside a lock that it has
to look into, and the clock can express the end of each of its waits. -/
structure WaitsEnd (s : System) (t : ThreadId) (table : TableId) (l : LockId) : Prop where
  unlatched : (s.memory.lock l).latch = none
  -- Who does not get the lock and finds room in its queue looks into every lock there is.
  live : ∀ u, (s.memory.lock l).mutex.owner = some u → u ≠ t →
    (s.memory.table table).policy.queueLimitReached (s.memory.lock l).mutex.queueLength = false →
      ∀ j ∈ s.memory.liveLocks, (s.memory.lock j).latch = none
  timed : ∀ u, (s.memory.lock l).mutex.owner = some u → u ≠ t →
    ∀ i n, (Attempt.ofEntry s.memory table l).hindrance t s.memory =
      some (.attemptsExceeded i n) → (Attempt.ofEntry s.memory table l).Ends s.now (n - 1)

/-- Nothing keeps a thread from the identifier, or its lock is closed and nobody else has it, or
someone else has it. -/
theorem Reached.prospects (hs : s.Reached) (t : ThreadId) (table : TableId) (i : String) :
    s.memory.Open t table i ∨ (∃ l, s.memory.Stale t table i l) ∨
      ∃ l u, (s.memory.table table).find? i = some l ∧ (s.memory.lock l).mutex.owner = some u ∧
        u ≠ t := by
  rcases hf : (s.memory.table table).find? i with - | l
  · refine .inl fun l hl => ?_
    rw [hf] at hl
    cases hl
  rcases hx : (s.memory.lock l).mutex.take? t with - | x
  · obtain ⟨u, hu, ho⟩ := Mutex.take?_eq_none_iff.mp hx
    exact .inr (.inr ⟨l, u, rfl, ho, hu⟩)
  by_cases hc : (s.memory.lock l).closed
  · have hmem := mem_of_lookup hf
    exact .inr (.inl ⟨l, hf, hs.tidy.named hmem, hs.tidy.known hmem, hs.wf l, hc, x, hx⟩)
  · refine .inl fun j hj => ?_
    cases hf.symm.trans hj
    exact ⟨Bool.eq_false_iff.mpr hc, x, hx⟩

/-- Who finds a closed lock that it can take comes to look again, if the call returns: then nobody
is inside the lock. -/
theorem Finishes.renewed {M : Memory} (h : Finishes t s k o s') (hp : s.phase t = .lookUp table i)
    (hm : s.memory = M) (hst : M.Stale t table i l) :
    ∃ m l' x, (M.shed table l).Enlists table i m l' ∧ (m.lock l').mutex.take? t = some x ∧
      s'.memory = m.setMutex l' x ∧ o = .obtained ⟨table, l'⟩ := by
  subst hm
  have hfound (now : Nat) : (s.phase t).next t now s.memory =
      some (.moveTo s.memory (.tryTake (.ofEntry s.memory table l))) := by
    rw [hp]
    exact next_lookUp_found hst.found
  obtain ⟨s₂, hp₂, hm₂, hf₂⟩ := h.past (by rw [hp]; rfl) hfound
  obtain ⟨now, st, htake, -⟩ := hf₂.next (by rw [hp₂]; rfl)
  rw [hp₂, hm₂] at htake
  have htake : (Attempt.ofEntry s.memory table l).tryTake t s.memory = some st := htake
  obtain ⟨n, hmarch⟩ := hst.marches (Memory.critical_eq_some_iff.mp htake).1
  obtain ⟨s₃, hp₃, hm₃, hf₃⟩ := hf₂.marches hmarch hp₂ hm₂
  obtain ⟨-, hgot⟩ := hf₃.granted hst.open_shed (hp₃ ▸ hm₃ ▸ .lookUp)
  exact hgot

theorem obtain_call (h : s.call t (.obtain table i) = some s') :
    s'.phase t = .lookUp table i ∧ s'.memory = s.memory.retain table := by
  refine ⟨phase_of_call h, ?_⟩
  obtain ⟨-, rfl⟩ := call_eq_some_iff.mp h
  rfl

theorem Alone.renews (hs : s.Reached) (hst : s.memory.Stale t table i l)
    (h : Alone t (.obtain table i) s k o s') :
    ∃ l', o = .obtained ⟨table, l'⟩ ∧ (s.memory.shed table l).Grants t table i l' s'.memory := by
  obtain ⟨s₁, hc, hf⟩ := h
  obtain ⟨hp, hm₁⟩ := obtain_call hc
  obtain ⟨m, l', x, he, hx, hm, ho⟩ := hf.renewed hp hm₁ hst.retain
  have hopen := hst.retain.open_shed
  rw [Memory.shed_retain] at hopen he
  have hw : (s.memory.shed table l).Wf := by
    intro j
    have hj : ((s.memory.shed table l).lock j).mutex = (s.memory.lock j).mutex :=
      congrFun Memory.mutexes_shed j
    rw [hj]
    exact hs.wf j
  rw [hm]
  exact ⟨l', ho, Memory.grants hw hopen he hx⟩

/-! ### That it returns -/

/-- Thread `t` that asks for the identifier and runs alone looks it up twice at most, does so much
outside its waits, and can return. -/
structure Settles (s : System) (t : ThreadId) (table : TableId) (i : String) : Prop where
  bounded : ∃ n, Bounded t (.lookUp table i) (s.memory.retain table) 2 n
  returns : ∃ k o s', Alone t (.obtain table i) s k o s'

section
variable (hi : s.phase t = .idle)
include hi

theorem returns_of_lookUp (h : ∃ l, Delivers t (.lookUp table i) (s.memory.retain table) s.now 0
    (.obtained ⟨table, l⟩)) : ∃ k o s', Alone t (.obtain table i) s k o s' := by
  obtain ⟨l, h⟩ := h
  obtain ⟨s', h⟩ := exists_alone hi h
  exact ⟨_, _, s', h⟩

theorem settles_of_open (ho : s.memory.Open t table i)
    (hl : ∀ l, (s.memory.table table).find? i = some l → (s.memory.lock l).latch = none) :
    s.Settles t table i := by
  have hfree (l : LockId) (hf : ((s.memory.retain table).table table).find? i = some l) :
      ((s.memory.retain table).lock l).latch = none :=
    hl l ((Memory.find?_retain ..).symm.trans hf)
  have hbound := Granting.bounded_lookUp ho.retain hfree
  exact ⟨⟨4, hbound.mono (by decide) (Nat.le_refl 4)⟩,
    returns_of_lookUp hi (Granting.delivers_lookUp ho.retain hfree)⟩

theorem settles_of_stale (hst : s.memory.Stale t table i l)
    (hl : (s.memory.lock l).latch = none) : s.Settles t table i := by
  have hnone := hst.retain.find?_shed
  have hopen := hst.retain.open_shed
  have hfree (j : LockId)
      (hj : (((s.memory.retain table).shed table l).table table).find? i = some j) :
      (((s.memory.retain table).shed table l).lock j).latch = none := by
    rw [hnone] at hj
    cases hj
  obtain ⟨n, hmarch⟩ := hst.retain.marches hl
  have hrest := hmarch.bounded (Granting.bounded_lookUp hopen hfree)
  obtain ⟨l', hlead⟩ := Granting.delivers_lookUp hopen hfree
  exact ⟨⟨_, .of_lookUp (fun _ => next_lookUp_found hst.retain.found) hrest⟩, returns_of_lookUp hi
    ⟨l', .of_act (next_lookUp_found hst.retain.found) rfl (hmarch.delivers hlead)⟩⟩

theorem settles_of_hindered (ha : s.memory.isAlive table) (hk : Hindered t (s.memory.lock l))
    (hf : (s.memory.table table).find? i = some l) (hl : (s.memory.lock l).latch = none)
    (hlive : (s.memory.table table).policy.queueLimitReached
      (s.memory.lock l).mutex.queueLength = false →
      ∀ j ∈ s.memory.liveLocks, (s.memory.lock j).latch = none)
    (htimed : ∀ i n, (Attempt.ofEntry s.memory table l).hindrance t s.memory =
      some (.attemptsExceeded i n) → (Attempt.ofEntry s.memory table l).Ends s.now (n - 1))
    (hn : (s.memory.table table).policy.attempts ≠ none) : s.Settles t table i := by
  constructor
  · rw [← Memory.liveLocks_retain ha] at hlive
    obtain ⟨n, hbound⟩ := Attempt.bounded_of_hindered (M := s.memory.retain table)
      (a := .ofEntry s.memory table l) hk hl hlive hn
    rw [← Memory.ofEntry_retain] at hbound
    have hfound : ((s.memory.retain table).table table).find? i = some l :=
      (Memory.find?_retain ..).trans hf
    have hall : Bounded t (.lookUp table i) (s.memory.retain table) 1 (n + 1) :=
      .of_lookUp (fun _ => next_lookUp_found hfound) hbound
    exact ⟨n + 1, hall.mono (by decide) (Nat.le_refl _)⟩
  · obtain ⟨e, he⟩ := (Attempt.ofEntry s.memory table l).exists_hindrance hn t s.memory
    obtain ⟨s', h⟩ := exists_refused_of_room hi ha hk hf hl hlive he fun i n h =>
      htimed i n (h ▸ he)
    exact ⟨_, _, s', h⟩

end

/-- **Closed locks do not keep a thread from getting on.** Thread `t`, which is not in a call, asks
a table for an identifier, and nobody else moves.

Suppose that its waits come to an end, and that the attempts are limited or nobody else has the lock
of the identifier. Then it looks the identifier up twice at most and does only so much outside its
waits, nothing else holds it up, and it can return.

When it returns it was refused for what stood in its way at the lock it found first, and the memory
is as it was but for the flag that an interrupt takes; or it got a lock that is registered and open.
A closed lock that it found and nobody else had is then out of every table, and its holds, its owner
and its queue are what they were. -/
theorem obtains_past_closed (hs : s.Reached) (hi : s.phase t = .idle)
    (ha : s.memory.isAlive table) :
    ((∀ l, (s.memory.table table).find? i = some l → s.WaitsEnd t table l) →
      ((s.memory.table table).policy.attempts ≠ none ∨ ∀ l u,
        (s.memory.table table).find? i = some l → (s.memory.lock l).mutex.owner = some u → u = t) →
      (∃ n, ∀ s₁ s' ms, s.call t (.obtain table i) = some s₁ → s₁.Solo t ms s' →
        s₁.tally t Phase.looksUp ms ≤ 2 ∧ s₁.tally t Phase.busy ms ≤ n ∧ s'.Unblocked t) ∧
      ∃ k o s', Alone t (.obtain table i) s k o s') ∧
    ∀ k o s', Alone t (.obtain table i) s k o s' →
      ((∃ l u e, (s.memory.table table).find? i = some l ∧
          (s.memory.lock l).mutex.owner = some u ∧ u ≠ t ∧
          (Attempt.ofEntry s.memory table l).hindrance t s.memory = some e ∧ o = .refused e ∧
          s'.memory = s.memory.refusing t e) ∨
        ∃ l, o = .obtained ⟨table, l⟩ ∧ s.memory.Obtains t table i l s'.memory) ∧
      ∀ l, (s.memory.table table).find? i = some l → (s.memory.lock l).closed →
        (∀ u, (s.memory.lock l).mutex.owner = some u → u = t) →
        (∀ j i', (s'.memory.table j).find? i' ≠ some l) ∧
          (s'.memory.lock l).mutex = (s.memory.lock l).mutex := by
  constructor
  · intro hend hb
    have hsettles : s.Settles t table i := by
      rcases hs.prospects t table i with ho | ⟨l, hst⟩ | ⟨l, u, hf, hu, hne⟩
      · exact settles_of_open hi ho fun l hf => (hend l hf).unlatched
      · exact settles_of_stale hi hst (hend l hst.found).unlatched
      · obtain ⟨hl, hlive, htimed⟩ := hend l hf
        have hn := hb.resolve_right fun h => hne (h l u hf hu)
        exact settles_of_hindered hi ha (hs.hindered hi hu hne) hf hl (hlive u hu hne)
          (htimed u hu hne) hn
    obtain ⟨n, hn⟩ := hsettles.bounded
    refine ⟨⟨n, fun s₁ s' ms hc hsolo => ?_⟩, hsettles.returns⟩
    obtain ⟨hp, hm⟩ := obtain_call hc
    exact hn s₁ s' ms hp hm hsolo
  · intro k o s' h
    rcases hs.prospects t table i with ho | ⟨l, hst⟩ | ⟨l, u, hf, hu, hne⟩
    · obtain ⟨-, l, hol, hg⟩ := h.grants hs ho.retain
      refine ⟨.inr ⟨l, hol, hg.obtains rfl⟩, fun j hj hc _ => ?_⟩
      rw [(ho j hj).1] at hc
      cases hc
    · obtain ⟨l', hol, hg⟩ := h.renews hs hst
      have hobtains := hg.obtains (m := s.memory) Memory.mutexes_shed
      refine ⟨.inr ⟨l', hol, hobtains⟩, fun j hj _ _ => ?_⟩
      cases hst.found.symm.trans hj
      obtain ⟨hne, hgone⟩ := hst.gone hs.tidy hg
      exact ⟨hgone, hobtains.others l hne⟩
    · obtain ⟨e, he, hoe, -, hm⟩ := h.refuses ha (hs.hindered hi hu hne) hf
      refine ⟨.inl ⟨l, u, e, hf, hu, hne, he, hoe, hm⟩, fun j hj _ howner => ?_⟩
      cases hf.symm.trans hj
      exact absurd (howner u hu) hne

/-- Thread 1 has "a", whose lock is closed from outside. -/
def shutTaken : List Move := taken ++ [.call 0 (.act (.close 0)), .act 0]

/-- When thread 1 obtains "a" once more, its hold on the closed lock stays, and that lock is out of
the table. -/
theorem obtains_past_closed_shut : ∃ s ns n k o s', run {} shutTaken = some (s, ns) ∧
    (s.memory.table 0).find? "a" = some 0 ∧ (s.memory.lock 0).closed = true ∧
    (∀ s₁ s' ms, s.call 1 (.obtain 0 "a") = some s₁ → s₁.Solo 1 ms s' →
      s₁.tally 1 Phase.looksUp ms ≤ 2 ∧ s₁.tally 1 Phase.busy ms ≤ n ∧ s'.Unblocked 1) ∧
    Alone 1 (.obtain 0 "a") s k o s' ∧
    (∃ l, o = .obtained ⟨0, l⟩ ∧ s.memory.Obtains 1 0 "a" l s'.memory) ∧
    (∀ j i', (s'.memory.table j).find? i' ≠ some 0) ∧
    (s'.memory.lock 0).mutex = { owner := some 1, holds := 1 } := by
  have hx : ∃ s ns, run {} shutTaken = some (s, ns) ∧ s.Reached ∧ s.phase 1 = .idle ∧
      s.memory.isAlive 0 = true ∧ (s.memory.table 0).find? "a" = some 0 ∧ s.memory.lock 0 =
        { identifier := "a", mutex := { owner := some 1, holds := 1 }, closed := true } :=
    Reached.exists_of_run (by decide +kernel)
  obtain ⟨s, ns, hr, hs, hi, ha, hf, hk⟩ := hx
  have howner (u : ThreadId) (hu : (s.memory.lock 0).mutex.owner = some u) : u = 1 := by
    rw [hk] at hu
    exact (Option.some.inj hu).symm
  have hmine (l : LockId) (u : ThreadId) (hl : (s.memory.table 0).find? "a" = some l)
      (hu : (s.memory.lock l).mutex.owner = some u) : u = 1 := by
    cases hf.symm.trans hl
    exact howner u hu
  have hend (l : LockId) (hl : (s.memory.table 0).find? "a" = some l) : s.WaitsEnd 1 0 l := by
    cases hf.symm.trans hl
    exact ⟨by rw [hk], fun u hu hne => absurd (howner u hu) hne,
      fun u hu hne => absurd (howner u hu) hne⟩
  obtain ⟨hsettles, hanswers⟩ := obtains_past_closed (i := "a") hs hi ha
  obtain ⟨⟨n, hn⟩, k, o, s', h⟩ := hsettles hend (.inr hmine)
  obtain ⟨hrefused | hgot, hclosed⟩ := hanswers k o s' h
  · obtain ⟨l, u, e, hl, hu, hne, -⟩ := hrefused
    exact absurd (hmine l u hl hu) hne
  · have hshut : (s.memory.lock 0).closed = true := by rw [hk]
    obtain ⟨hgone, hmutex⟩ := hclosed 0 hf hshut howner
    refine ⟨s, ns, n, k, o, s', hr, hf, hshut, hn, h, hgot, hgone, ?_⟩
    rw [hmutex, hk]

end System

end KeyedLocks
