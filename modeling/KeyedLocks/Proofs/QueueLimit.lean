import KeyedLocks.Proofs.Attempts
import KeyedLocks.Proofs.Refusal

/-!
# Limits of queues

A thread reads the length of a queue once, before it checks for a deadlock and joins the queue, and
it joins it again without a look when a wait has timed out. While it is in between
(`Phase.entering`), nobody else takes a step (`Session.Uncrowded`). Then a thread finds room in the
queue when it joins it (`Phase.Fits`): it has left the queue itself or has seen that there is room,
and nobody came since (`Phase.Path.fits`). So no queue gets longer than the policy of its table
allows (`Session.queueLimited_of_uncrowded`).
-/

namespace KeyedLocks

/-! ## Lengths of queues -/

section
variable {me : ThreadId} {X X' : LockId → Mutex} {p p' : Phase} {q : ThreadId → Option LockId}

theorem length_leaveQueue {ws : List ThreadId} {t : ThreadId} (h : t ∈ ws) :
    (leaveQueue ws t).length + 1 = ws.length := by
  have hpos : 0 < ws.length := List.length_pos_of_mem h
  rw [(leaveQueue_perm ws t).length_eq, List.length_erase_of_mem h]
  omega

theorem length_leaveQueue_lt {ws : List ThreadId} {t : ThreadId} (h : t ∈ ws) :
    (leaveQueue ws t).length < ws.length := Nat.lt_of_succ_le (Nat.le_of_eq (length_leaveQueue h))

/-- In a turn, the thread joins a queue or leaves it, or no queue changes. -/
theorem Turn.waiters (h : Turn me X p X' p') (l : LockId) :
    (∃ e d, p = .waiting e d .enter ∧ e.lock = l ∧ (X' l).waiters = (X l).waiters ++ [me]) ∨
      (p.queue? = some l ∧ (X' l).waiters = leaveQueue (X l).waiters me) ∨
        (X' l).waiters = (X l).waiters ∧ (p.queue? = some l → p'.queue? = some l) := by
  cases h with
  | rest hp => exact .inr (.inr ⟨rfl, hp.trans⟩)
  | @take j x _ _ hx hp =>
    refine .inr (.inr ⟨?_, fun h => ?_⟩)
    · rw [Function.update_apply]
      split
      · next hl => rw [Mutex.waiters_of_take? hx, hl]
      · rfl
    · rw [hp] at h
      cases h
  | @release j x _ _ hx hp =>
    refine .inr (.inr ⟨?_, fun h => ?_⟩)
    · rw [Function.update_apply]
      split
      · next hl => rw [Mutex.waiters_of_release? hx, hl]
      · rfl
    · rw [hp] at h
      cases h
  | @enter e d =>
    by_cases hl : e.lock = l
    · subst hl
      rw [Function.update_self]
      exact .inl ⟨e, d, rfl, rfl, rfl⟩
    · rw [Function.update_of_ne (Ne.symm hl)]
      exact .inr (.inr ⟨rfl, nofun⟩)
  | @leave e d s _ hs =>
    rw [Phase.queue?_waiting hs]
    by_cases hl : e.lock = l
    · subst hl
      rw [Function.update_self]
      exact .inr (.inl ⟨rfl, rfl⟩)
    · rw [Function.update_of_ne (Ne.symm hl)]
      exact .inr (.inr ⟨rfl, fun h => absurd (Option.some.inj h) hl⟩)
  | @grab e d s x _ hs hx =>
    rw [Phase.queue?_waiting hs]
    by_cases hl : e.lock = l
    · subst hl
      rw [Function.update_self, Mutex.leave, Mutex.waiters_of_take? hx]
      exact .inr (.inl ⟨rfl, rfl⟩)
    · rw [Function.update_of_ne (Ne.symm hl)]
      exact .inr (.inr ⟨rfl, fun h => absurd (Option.some.inj h) hl⟩)

/-- A thread that joins no queue makes none longer, and the one it leaves gets shorter. -/
theorem Turn.length_le (h : Turn me X p X' p') (hq : Queues X q) (hme : q me = p.queue?)
    {l : LockId} (hp : ∀ e d, p = .waiting e d .enter → e.lock ≠ l) :
    (X' l).waiters.length ≤ (X l).waiters.length ∧ (p.queue? = some l → p'.queue? = none →
      (X' l).waiters.length < (X l).waiters.length) := by
  rcases h.waiters l with ⟨e, d, he, hl, -⟩ | ⟨hl, hw⟩ | ⟨hw, hstay⟩
  · exact absurd hl (hp e d he)
  · have hlt := length_leaveQueue_lt (hq.mem_iff.mpr (hme.trans hl))
    rw [hw]
    exact ⟨Nat.le_of_lt hlt, fun _ _ => hlt⟩
  · refine ⟨Nat.le_of_eq (congrArg List.length hw), fun hl hn => ?_⟩
    rw [hstay hl] at hn
    cases hn

theorem Turn.length_le_succ (h : Turn me X p X' p') (hq : Queues X q) (hme : q me = p.queue?)
    (l : LockId) : (X' l).waiters.length ≤ (X l).waiters.length + 1 := by
  rcases h.waiters l with ⟨e, d, -, -, hw⟩ | ⟨hl, hw⟩ | ⟨hw, -⟩
  · rw [hw, List.length_append, List.length_singleton]
  · have hlt := length_leaveQueue_lt (hq.mem_iff.mpr (hme.trans hl))
    rw [hw]
    omega
  · rw [hw]
    exact Nat.le_succ _

end

/-! ## Room in a queue -/

/-- The thread is about to join a queue, and does not look at its length any more. -/
def Phase.entering : Phase → Bool
  | .checking (.attempt ..) _ | .spend .. | .waiting (.attempt ..) _ .enter => true
  | _ => false

/-- With `n` threads in the queue at hand, a thread in it keeps to the limit of `k`, and so will a
thread that joins it. -/
def Phase.Fits (k n : Nat) : Phase → Prop
  | .checking .. | .spend .. | .waiting _ _ .enter => n < k
  | .waiting .. => n ≤ k
  | _ => True

theorem Phase.fits_waiting {k n : Nat} {e : Errand} {d : Option Nat} {s : WaitStage}
    (hs : s ≠ .enter) : (Phase.waiting e d s).Fits k n ↔ n ≤ k := by
  cases s with
  | enter => exact absurd rfl hs
  | checkFlag | doze | asleep => exact Iff.rfl

theorem Phase.Fits.le {k n : Nat} {e : Errand} {d : Option Nat} {s : WaitStage}
    (h : (Phase.waiting e d s).Fits k n) : n ≤ k := by
  cases s with
  | enter => exact Nat.le_of_lt h
  | checkFlag | doze | asleep => exact h

section
variable {me : ThreadId} {m m' : Memory} {p p' : Phase} {a : Attempt} {k : Nat}
  {q : ThreadId → Option LockId}

/-- Who is not about to join a queue only minds that it keeps to the limit. -/
theorem Phase.Fits.of_le {n n' : Nat} (h : p.Fits k n) (ha : p.attempt? = some a)
    (he : p.entering = false) (hle : n ≤ k → n' ≤ k) : p.Fits k n' := by
  cases p with
  | checking e c =>
    cases e with
    | attempt => cases he
    | plain => cases ha
  | spend => cases he
  | waiting e d s =>
    cases e with
    | attempt =>
      cases s with
      | enter => cases he
      | checkFlag | doze | asleep => exact hle h
    | plain => cases ha
  | _ => trivial

/-- **A thread that has room in a queue, or makes some, finds room when it joins the queue.** -/
theorem Phase.Path.fits (h : p.Path me m m' p') (ht : Turn me m.mutexes p m'.mutexes p')
    (hq : Queues m.mutexes q) (hme : q me = p.queue?) (ha : p'.attempt? = some a)
    (hk : a.policy.queueLimit = some k) (hp : p.attempt? = some a →
      p.Fits k (m.mutexes a.lock).waiters.length) :
    p'.Fits k (m'.mutexes a.lock).waiters.length := by
  -- Whoever joins no queue at hand finds it no longer than before.
  have hle (hn : ∀ e d, p ≠ .waiting e d .enter) :=
    ht.length_le hq hme (l := a.lock) fun e d h => absurd h (hn e d)
  cases h with
  | room hr =>
    cases ha
    have hlt : (m.mutexes a.lock).waiters.length < k := by
      rw [Policy.queueLimitReached, hk] at hr
      exact Nat.lt_of_not_le (of_decide_eq_false hr)
    exact Nat.lt_of_le_of_lt (hle nofun).1 hlt
  | check | pass | spend => cases ha; exact Nat.lt_of_le_of_lt (hle nofun).1 (hp rfl)
  | @wait _ _ left d s s' hs' =>
    cases ha
    rw [fits_waiting hs']
    cases s with
    | enter => exact Nat.le_trans (ht.length_le_succ hq hme _) (hp rfl)
    | checkFlag | doze | asleep => exact Nat.le_trans (hle nofun).1 (hp rfl)
  | timeOut => cases ha; exact Nat.lt_of_lt_of_le ((hle nofun).2 rfl rfl) (hp rfl)
  | found | absent | create | take | miss | shut | backedOut => trivial
  | backOut hp' => rcases hp' with rfl | rfl <;> trivial
  | discard => cases ha

end

namespace Session

variable {x y z : Session} {t u : ThreadId} {a b : Attempt} {table : TableId} {i : String}
  {l : LockId} {m : Move} {k : Nat}

/-! ## Queues that nobody crowds -/

/-- Users do as they may, and nobody else takes a step between a look at a queue, or a time-out, and
the joining of the queue. -/
abbrev Uncrowded (x : Session) (m : Move) : Prop := x.allows m ∧ x.Secluded Phase.entering m

instance (x : Session) (m : Move) : Decidable (x.Secluded Phase.entering m) :=
  decidableSecluded rfl x m

/-- Threads keep to the limits of queues. -/
def Fitted (x : Session) : Prop := ∀ t a k, (x.phase t).attempt? = some a →
  a.policy.queueLimit = some k → (x.phase t).Fits k (x.memory.mutexes a.lock).waiters.length

theorem turn_of_move (hy : x.move (.act t) = some y) :
    Turn t x.memory.mutexes (x.phase t) y.memory.mutexes (y.phase t) := by
  obtain ⟨st, hst, hphase, hmem, -⟩ := next_of_move hy
  rw [hphase, hmem]
  exact Phase.next_turns hst

theorem mutexes_of_move (hy : x.move m = some y) (hm : ∀ u, m ≠ .act u) :
    y.memory.mutexes = x.memory.mutexes := by
  cases m with
  | call u c =>
    obtain ⟨-, rfl⟩ := of_move_call hy
    exact c.begin_mutexes ..
  | act u => exact absurd rfl (hm u)
  | rouse u =>
    obtain ⟨l, -, rfl⟩ := of_move_rouse hy
    exact Memory.mutexes_rouse
  | tick d => cases hy; rfl

theorem Fitted.length_le (h : x.Fitted) (hx : x.Reachable) (hy : x.move (.act u) = some y)
    (ha : (x.phase t).attempt? = some a) (hk : a.policy.queueLimit = some k)
    (hn : (x.memory.mutexes a.lock).waiters.length ≤ k) :
    (y.memory.mutexes a.lock).waiters.length ≤ k := by
  have hturn := turn_of_move hy
  by_cases hu : ∃ e d, x.phase u = .waiting e d .enter ∧ e.lock = a.lock
  · obtain ⟨e, d, hp, hl⟩ := hu
    obtain ⟨b, left, rfl⟩ := hx.exists_attempt (.inr ⟨d, _, hp⟩)
    have hb : (x.phase u).attempt? = some b := by rw [hp]; rfl
    have hlimit : b.policy.queueLimit = some k := by rw [hx.policy_eq hb ha hl, hk]
    have hroom := h u b k hb hlimit
    rw [hp] at hroom
    rw [← hl]
    exact Nat.le_trans (hturn.length_le_succ hx.queues rfl _) hroom
  · have hjoins (e : Errand) (d : Option Nat) (hp : x.phase u = .waiting e d .enter) :
        e.lock ≠ a.lock := fun hl => hu ⟨e, d, hp, hl⟩
    exact Nat.le_trans (hturn.length_le hx.queues rfl hjoins).1 hn

theorem Fitted.move (h : x.Fitted) (hx : x.Reachable) (hm : x.Uncrowded m)
    (hy : x.move m = some y) : y.Fitted := by
  intro t a k ha hk
  rcases path_of_move hy (Phase.pursues_of_attempt? ha) with
    ⟨rfl, hpath⟩ | ⟨c, rfl, -, hc⟩ | ⟨hne, he⟩
  · exact hpath.fits (turn_of_move hy) hx.queues rfl ha hk fun ha => h t a k ha hk
  · rw [hc] at ha
    cases c with
    | take => cases hm.1
    | _ => cases ha
  · rw [he] at ha ⊢
    have hfits := h t a k ha hk
    by_cases hact : ∃ u, m = .act u
    · obtain ⟨u, rfl⟩ := hact
      have hentering := hm.2.eq_false rfl fun htu => hne (htu ▸ rfl)
      exact hfits.of_le ha hentering (h.length_le hx hy ha hk)
    · rw [mutexes_of_move hy fun u hu => hact ⟨u, hu⟩]
      exact hfits

theorem fitted (hx : Reach Uncrowded x) : x.Fitted := by
  induction hx with
  | start => intro t a k ha; cases ha
  | @move x y m hx hm hy ih => exact ih.move (hx.mono fun _ _ => And.left) hm hy

/-! ## Calls on a table with a limit -/

/-- What a limit of `k` waiting threads for each lock of a table comes to, from `x` on. -/
structure QueueLimited (x : Session) (table : TableId) (k : Nat) : Prop where
  /-- Also when it is out of the table, no lock has more waiting threads. -/
  queues : ∀ {i l y}, (i, l) ∈ (x.memory.table table).entries → Leads Uncrowded x y →
    (y.memory.lock l).mutex.queueLength ≤ k
  /-- A thread that is refused because of a limit has found a queue that was full. -/
  refusals : ∀ {t i y z s notes i' q k'}, x.allows (.call t (.obtain table i)) →
    x.move (.call t (.obtain table i)) = some y → Leads (Engaged t) y z →
    z.system.act t = some (s, notes) →
    .returned (.refused (.tooManyQueued i' q k')) ∈ notes → i' = i ∧ k' = k ∧ k ≤ q ∧
      ∃ l, (z.memory.lock l).identifier = i ∧ (z.memory.lock l).mutex.queueLength = q
  /-- A thread is not refused what it holds. -/
  reentry : ∀ {t i y z s notes}, x.Holds t table i → x.allows (.call t (.obtain table i)) →
    x.move (.call t (.obtain table i)) = some y → Leads (Engaged t) y z →
    z.system.act t = some (s, notes) → ∀ e, .returned (.refused e) ∉ notes

theorem queueLimit_of_leads {ok : Session → Move → Prop}
    (hk : (x.memory.table table).policy.queueLimit = some k) (hy : Leads ok x y) :
    (y.memory.table table).policy.queueLimit = some k := by
  induction hy with
  | refl => exact hk
  | move _ _ hz ih =>
    rw [(System.upholds_of_moved (moved hz)).policy (Memory.lt_fresh_of_queueLimit ih)]
    exact ih

theorem Fitted.queueLength_le (h : x.Fitted) (hx : x.Reachable) (hb : x.Belongs table l)
    (hk : (x.memory.table table).policy.queueLimit = some k) :
    (x.memory.lock l).mutex.queueLength ≤ k := by
  rcases hw : (x.memory.lock l).mutex.waiters with _ | ⟨w, ws⟩
  · rw [Mutex.queueLength, hw]
    exact Nat.zero_le k
  have hmem : w ∈ (x.memory.mutexes l).waiters := by
    show w ∈ (x.memory.lock l).mutex.waiters
    rw [hw]
    exact List.mem_cons_self ..
  obtain ⟨e, d, s, hp, rfl⟩ := Phase.waiting_of_queue? (hx.queues.mem_iff.mp hmem)
  obtain ⟨a, left, rfl⟩ := hx.exists_attempt (.inr ⟨d, s, hp⟩)
  have ha : (x.phase w).attempt? = some a := by rw [hp]; rfl
  have hlimit : a.policy.queueLimit = some k := by
    rw [hx.policy ha (hb.attempts ha rfl)]
    exact hk
  have hfits := h w a k ha hlimit
  rw [hp] at hfits
  exact hfits.le

/-- Where a thread enters its own lock once more, nothing can go wrong. -/
theorem Reenters.not_refused (h : x.Reenters t) {s : System} {notes : List Note}
    (hact : x.system.act t = some (s, notes)) (e : LockError) :
    .returned (.refused e) ∉ notes := by
  intro hmem
  obtain ⟨st, hst, rfl, -⟩ := System.act_eq_some_iff.mp hact
  have hrefusal : (x.phase t).Refusal t x.memory _ := Phase.next_refusal hst hmem rfl
  rcases h with ⟨table, i, hp⟩ | ⟨a, hp | hp, -⟩ <;>
    · rw [hp] at hrefusal
      cases hrefusal

/-- **No queue gets longer than its table allows**, a thread is refused for a queue that is full
only, and never what it holds. -/
theorem queueLimited_of_uncrowded (hx : Reach Uncrowded x)
    (hk : (x.memory.table table).policy.queueLimit = some k) : x.QueueLimited table k where
  queues hl hy := by
    have hr : x.Reachable := hx.mono fun _ _ => And.left
    obtain ⟨hyr, hb⟩ := (hr.belongs_of_entry hl).leads hr (hy.mono fun _ _ => And.left)
    exact (fitted (hy.reach hx)).queueLength_le hyr hb (queueLimit_of_leads hk hy)
  refusals {t i y z s notes i' q k'} hm hy hz hact hmem := by
    have hr : x.Reachable := hx.mono fun _ _ => And.left
    have hyr : y.Reachable := hr.move hm hy
    have hlimit : (y.memory.table table).policy.queueLimit = some k :=
      queueLimit_of_leads hk (Leads.refl.move hm hy : Leads Allowed x y)
    obtain ⟨hzr, ha, -⟩ := hyr.of_engaged (aim?_of_call hy) hz
    obtain ⟨st, hst, rfl, -⟩ := System.act_eq_some_iff.mp hact
    have hrefusal : (z.phase t).Refusal t z.memory _ := Phase.next_refusal hst hmem rfl
    generalize hp : z.phase t = p at hrefusal ha
    cases hrefusal with
    | @queueFull a k' hk' hle =>
      obtain ⟨table', ht, he⟩ := Option.map_eq_some_iff.mp ha
      cases he
      have hattempt : (z.phase t).attempt? = some a := by rw [hp]; rfl
      have hpolicy : a.policy = (z.memory.table table).policy := hzr.policy hattempt ht
      rw [hpolicy, queueLimit_of_leads hlimit hz] at hk'
      cases hk'
      exact ⟨rfl, rfl, hle, a.lock, rfl, rfl⟩
  reentry {t i y z s notes} hh hm hy hz hact := by
    have hr : x.Reachable := hx.mono fun _ _ => And.left
    have hyr : y.Reachable := hr.move hm hy
    obtain ⟨hzr, ha, hholds⟩ := hyr.of_engaged (aim?_of_call hy) hz
    have hzh : z.Holds t table i := (hholds table i).mpr ((holds_of_move hy nofun table i).mpr hh)
    exact (hzr.reentrant ha hzh).not_refused hact

/-- One thread may wait for each lock. -/
def single : Policy :=
  { Policy.unbounded with queueLimit := some 1, queueLimit_valid := by simp [Int64.size] }

/-- Thread 1 has "a", and thread 2 waits for it. -/
def crowd : List Move := List.flatten
  [[.call 0 (.act (.makeTable single false)), .act 0, .call 1 (.obtain 0 "a")],
    List.replicate 4 (.act 1), [.call 2 (.obtain 0 "a")], List.replicate 17 (.act 2)]

/-- Thread 3 comes too late. -/
theorem queueLimited_of_uncrowded_crowd : ∃ x y z s notes,
    run Uncrowded {} crowd = some x ∧ x.QueueLimited 0 1 ∧
    (x.memory.lock 0).mutex.queueLength = 1 ∧ x.Holds 1 0 "a" ∧
    x.move (.call 3 (.obtain 0 "a")) = some y ∧ run (Engaged 3) y [.act 3, .act 3] = some z ∧
    z.system.act 3 = some (s, notes) ∧
    .returned (.refused (.tooManyQueued "a" 1 1)) ∈ notes := by
  have hx : ∃ x, run Uncrowded {} crowd = some x ∧ Reach Uncrowded x ∧
      (x.memory.table 0).policy.queueLimit = some 1 ∧
      (x.memory.lock 0).mutex.queueLength = 1 ∧ x.Holds 1 0 "a" ∧
      ((x.move (.call 3 (.obtain 0 "a"))).any fun y =>
        (run (Engaged 3) y [.act 3, .act 3]).any fun z => (z.system.act 3).any fun r =>
          .returned (.refused (.tooManyQueued "a" 1 1)) ∈ r.2) = true :=
    exists_of_run (by decide +kernel)
  obtain ⟨x, hr, hx, hk, hq, hh, hany⟩ := hx
  obtain ⟨y, hy, hany⟩ := (Option.any_eq_true _ _).mp hany
  obtain ⟨z, hz, hany⟩ := (Option.any_eq_true _ _).mp hany
  obtain ⟨⟨s, notes⟩, hact, hmem⟩ := (Option.any_eq_true _ _).mp hany
  exact ⟨x, y, z, s, notes, hr, queueLimited_of_uncrowded hx hk, hq, hh, hy, hz, hact,
    of_decide_eq_true hmem⟩

end Session

end KeyedLocks
