import Mathlib.Algebra.BigOperators.Group.Finset.Basic
import KeyedLocks.Contention.Report
import KeyedLocks.Proofs.Rest
import KeyedLocks.Proofs.Stations

/-!
# The accounts of a contention

Whatever the order in which workers act, a contention that is over has counted each iteration once,
as an acquisition or as a failure that the policy asks for, and has left nothing behind
(`Contention.accounted_of_over`).

`Accounts` says how the counts and the marks add up over the workers, `Sound` adds what each worker
has in hand. Both are kept by every turn. `turns_run` says that the order of turns that `run` picks
is one of all these orders.
-/

namespace KeyedLocks

namespace System

variable {s s' : System} {t : ThreadId}

/-- The two systems differ in the number of threads they have heard of at most. -/
structure Alike (s s' : System) : Prop where
  memory : s'.memory = s.memory
  now : s'.now = s.now
  phase : ∀ t, s'.phase t = s.phase t

theorem Alike.after (h : s.Alike s') (t : ThreadId) (st : Step) :
    (s.after t st).Alike (s'.after t st) where
  memory := rfl
  now := h.now
  phase u := by
    by_cases hu : u = t
    · rw [hu, phase_after, phase_after]
    · rw [phase_after_of_ne _ _ _ hu, phase_after_of_ne _ _ _ hu, h.phase]

theorem Alike.asleepOn (h : s.Alike s') (t : ThreadId) : s'.asleepOn t = s.asleepOn t := by
  rw [System.asleepOn, System.asleepOn, h.phase, h.memory]

end System

/-! ## Counts -/

namespace Tally

variable {p : Policy} {y : Tally} {e : LockError}

/-- The iterations that are counted as acquisitions or as failures that policies ask for. -/
def total (y : Tally) : Nat := y.acquired + y.tooManyQueued + y.attemptsExceeded

/-- Nothing has gone wrong, and failures are due to limits of the policy. -/
structure Clean (p : Policy) (y : Tally) : Prop where
  violations : y.violations = 0
  deadlocks : y.deadlocks = 0
  interrupted : y.interrupted = 0
  queue : p.queueLimit = none → y.tooManyQueued = 0
  attempts : p.attempts = none → y.attemptsExceeded = 0

theorem Clean.fail (h : y.Clean p) (he : e.ByPolicy p) : (y.fail e).Clean p := by
  cases he with
  | queue hq =>
    refine { h with queue := fun hn => ?_ }
    rw [hn] at hq
    cases hq
  | attempts ha =>
    refine { h with attempts := fun hn => ?_ }
    rw [hn] at ha
    cases ha

theorem total_fail (he : e.ByPolicy p) : (y.fail e).total = y.total + 1 := by
  cases he with
  | queue => simp only [fail, total]; omega
  | attempts => simp only [fail, total]; omega

theorem Clean.succeed (h : y.Clean p) : y.succeed.Clean p := { h with }

theorem total_succeed : y.succeed.total = y.total + 1 := by
  simp only [succeed, total]
  omega

end Tally

namespace Contention

open Finset (range)

/-- The worker has a handle. -/
def Station.names : Station → Nat
  | .entering _ | .holding .. | .leaving _ | .counting _ | .returning _ | .releasing _
  | .dropping _ => 1
  | .start | .obtaining | .refused _ | .failed .. | .dropped | .over => 0

/-- The worker has marked that it is inside its key. -/
def Station.marks : Station → Nat
  | .holding .. | .leaving _ => 1
  | _ => 0

/-- The iteration is not over, but counted. -/
def Station.counts : Station → Nat
  | .returning _ | .releasing _ | .dropping _ | .dropped => 1
  | _ => 0

/-- The iterations of a worker that are counted. -/
def Worker.settled (w : Worker) : Nat := w.iteration + w.station.counts

/-- The worker begins no iteration after the last, and ends with the last. -/
def Worker.Timely (n : Nat) (w : Worker) : Prop :=
  match w.station with
  | .start => w.iteration ≤ n
  | .over => w.iteration = n
  | _ => w.iteration < n

/-- The marks that a worker has made at a key. -/
def marks (c : Contention) (key : Nat) (t : ThreadId) : Nat :=
  if c.keyOf t = key then (c.worker t).station.marks else 0

/-- The counts and the marks are those of the workers. -/
structure Accounts (p : Policy) (c : Contention) : Prop where
  /-- There are no other workers than there should be. -/
  staff : ∀ t, c.setup.threads ≤ t → (c.worker t).station = .start
  timely : ∀ t, (c.worker t).Timely c.setup.iterations
  inside : ∀ key, c.inside.get key = ∑ t ∈ range c.setup.threads, c.marks key t
  total : c.tally.total = ∑ t ∈ range c.setup.threads, (c.worker t).settled
  clean : c.tally.Clean p

/-- `c'` is `c` with another state of worker `t`, as far as workers are concerned. -/
structure Turned (t : ThreadId) (c c' : Contention) : Prop where
  setup : c'.setup = c.setup
  table : c'.table = c.table
  others : ∀ u, u ≠ t → c'.worker u = c.worker u

section
variable {c c' : Contention} {t u : ThreadId} {p : Policy} {s : Station}

theorem worker_moveTo (c : Contention) (t : ThreadId) (s : Station) (u : ThreadId) :
    (c.moveTo t s).worker u = if u = t then { c.worker t with station := s } else c.worker u :=
  Arena.get_modify ..

theorem worker_nextIteration (c : Contention) (t u : ThreadId) : (c.nextIteration t).worker u =
    if u = t then { iteration := (c.worker t).iteration + 1 } else c.worker u :=
  Arena.get_modify ..

theorem worker_moveTo_self (c : Contention) (t : ThreadId) (s : Station) :
    (c.moveTo t s).worker t = { c.worker t with station := s } := by
  rw [worker_moveTo, if_pos rfl]

theorem worker_nextIteration_self (c : Contention) (t : ThreadId) :
    (c.nextIteration t).worker t = { iteration := (c.worker t).iteration + 1 } := by
  rw [worker_nextIteration, if_pos rfl]

theorem turned_moveTo (c : Contention) (t : ThreadId) (s : Station) :
    c.Turned t (c.moveTo t s) where
  setup := rfl
  table := rfl
  others u hu := by rw [worker_moveTo, if_neg hu]

theorem Turned.keyOf (h : c.Turned t c') (hu : u ≠ t) : c'.keyOf u = c.keyOf u := by
  rw [Contention.keyOf, h.others u hu, h.setup]
  rfl

theorem keyOf_moveTo (c : Contention) (t : ThreadId) (s : Station) (u : ThreadId) :
    (c.moveTo t s).keyOf u = c.keyOf u := by
  rw [keyOf, worker_moveTo]
  split
  · next hu => rw [hu]; rfl
  · rfl

theorem marks_moveTo (c : Contention) (t : ThreadId) (s : Station) (key : Nat) :
    (c.moveTo t s).marks key t = if c.keyOf t = key then s.marks else 0 := by
  rw [marks, keyOf_moveTo, worker_moveTo_self]

theorem sum_of_others {f g : ThreadId → Nat} {n : Nat} (ht : t < n)
    (h : ∀ u, u ≠ t → g u = f u) : ∑ u ∈ range n, g u + f t = ∑ u ∈ range n, f u + g t := by
  have hmem : t ∈ range n := Finset.mem_range.mpr ht
  have hrest : ∑ u ∈ (range n).erase t, g u = ∑ u ∈ (range n).erase t, f u :=
    Finset.sum_congr rfl fun u hu => h u (Finset.ne_of_mem_erase hu)
  have hf := Finset.add_sum_erase (range n) f hmem
  have hg := Finset.add_sum_erase (range n) g hmem
  omega

/-- What the worker whose turn it is has to show for the accounts to add up. -/
theorem Accounts.turn (h : c.Accounts p) (hc : c.Turned t c') (ht : t < c.setup.threads)
    (htimely : (c'.worker t).Timely c.setup.iterations)
    (hinside : ∀ key, c'.inside.get key + c.marks key t = c.inside.get key + c'.marks key t)
    (htotal : c'.tally.total + (c.worker t).settled = c.tally.total + (c'.worker t).settled)
    (hclean : c'.tally.Clean p) : c'.Accounts p where
  staff u hu := by
    rw [hc.setup] at hu
    rw [hc.others u (Nat.ne_of_gt (Nat.lt_of_lt_of_le ht hu))]
    exact h.staff u hu
  timely u := by
    rw [hc.setup]
    by_cases hu : u = t
    · rw [hu]
      exact htimely
    · rw [hc.others u hu]
      exact h.timely u
  inside key := by
    have hsum := sum_of_others (f := c.marks key) (g := c'.marks key) ht fun u hu => by
      rw [marks, marks, hc.keyOf hu, hc.others u hu]
    have hold := h.inside key
    have hnew := hinside key
    rw [hc.setup]
    omega
  total := by
    have hsum := sum_of_others (f := fun u => (c.worker u).settled)
      (g := fun u => (c'.worker u).settled) ht fun u hu => by rw [hc.others u hu]
    have hold := h.total
    rw [hc.setup]
    omega
  clean := hclean

theorem Accounts.moveTo (h : c.Accounts p) (ht : t < c.setup.threads)
    (hlt : (c.worker t).iteration < c.setup.iterations) (hs : s ≠ .over)
    (hm : s.marks = (c.worker t).station.marks) (hn : s.counts = (c.worker t).station.counts) :
    (c.moveTo t s).Accounts p := by
  refine h.turn (turned_moveTo c t s) ht ?_ (fun key => ?_) ?_ h.clean
  · rw [worker_moveTo_self]
    unfold Worker.Timely
    split
    · exact Nat.le_of_lt hlt
    · next hover => exact absurd hover hs
    · exact hlt
  · rw [marks_moveTo, marks, hm]
    rfl
  · rw [worker_moveTo_self, Worker.settled, Worker.settled, hn]
    rfl

theorem Accounts.nextIteration (h : c.Accounts p) (ht : t < c.setup.threads) {tally : Tally}
    (hlt : (c.worker t).iteration < c.setup.iterations) (hm : (c.worker t).station.marks = 0)
    (htotal : tally.total + (c.worker t).station.counts = c.tally.total + 1)
    (hclean : tally.Clean p) : ({ c with tally }.nextIteration t).Accounts p := by
  have hturned : c.Turned t ({ c with tally }.nextIteration t) :=
    ⟨rfl, rfl, fun u hu => (worker_nextIteration ..).trans (if_neg hu)⟩
  have hself := worker_nextIteration_self { c with tally } t
  refine h.turn hturned ht ?_ (fun key => ?_) ?_ hclean
  · rw [hself]
    exact hlt
  · rw [marks, marks, hself, hm, ite_self]
    exact congrArg _ (ite_self 0).symm
  · rw [hself]
    show tally.total + ((c.worker t).iteration + (c.worker t).station.counts) =
      c.tally.total + ((c.worker t).iteration + 1)
    omega

end

/-! ## Sessions behind contentions -/

/-- Users have interrupted nobody, and the table they made has its policy. -/
structure Fair (x : Session) (table : TableId) (p : Policy) : Prop where
  reachable : x.Reachable
  made : table < x.memory.tables.fresh
  policy : (x.memory.table table).policy = p
  calm : x.memory.interrupted = []

/-- The contention is sound: the session `x` is behind it, each worker has in hand what it should,
and the accounts add up. -/
structure Sound (p : Policy) (c : Contention) (x : Session) : Prop where
  fair : Fair x c.table p
  alike : x.system.Alike c.system
  fits : ∀ t, (c.worker t).station.Fits x c.table p t (c.keyOf t)
  /-- Beside the names of the workers there is one that keeps the table. -/
  names : ∑ t ∈ range c.setup.threads, (c.worker t).station.names < x.names.count c.table
  accounts : c.Accounts p

section
variable {x y : Session} {c c' : Contention} {t u : ThreadId} {p : Policy} {s : Station} {m : Move}
  {table : TableId}

theorem Fair.move (h : Fair x table p) (ha : x.allows m) (hy : x.move m = some y)
    (hm : ∀ t, m = .act t → ∀ u, x.phase t ≠ .interrupting u .raise) : Fair y table p where
  reachable := h.reachable.move ha hy
  made := Nat.lt_of_lt_of_le h.made (System.upholds_of_moved (Session.moved hy)).fresh_le
  policy := ((System.upholds_of_moved (Session.moved hy)).policy h.made).trans h.policy
  calm := Session.interrupted_of_move hy h.calm hm

theorem Station.Fits.of_other {key : Nat} (hf : s.Fits x table p u key) (hx : x.Reachable)
    (hm : m = .act t ∨ ∃ k, m = .call t k) (hy : x.move m = some y) (hu : u ≠ t) :
    s.Fits y table p u key := by
  have hphase : y.phase u = x.phase u := by
    rcases hm with rfl | ⟨k, rfl⟩
    · obtain ⟨st, -, rfl⟩ := Session.of_move_act hy
      exact Arena.get_set_ne _ _ hu
    · obtain ⟨-, rfl⟩ := Session.of_move_call hy
      exact Arena.get_set_ne _ _ hu
  refine hf.move hx hy ?_ hphase
  rcases hm with rfl | ⟨k, rfl⟩
  · rintro ⟨⟩
    exact hu rfl
  · exact nofun

/-- What the worker whose turn it is has to show for the contention to stay sound. -/
theorem Sound.turn (h : c.Sound p x) (ht : t < c.setup.threads) (hc : c.Turned t c')
    (hfair : Fair y c.table p) (halike : y.system.Alike c'.system)
    (hothers : ∀ u, u ≠ t → (c.worker u).station.Fits y c.table p u (c.keyOf u))
    (hfits : (c'.worker t).station.Fits y c.table p t (c'.keyOf t))
    (hnames : (c'.worker t).station.names + x.names.count c.table ≤
      y.names.count c.table + (c.worker t).station.names)
    (haccounts : c'.Accounts p) : c'.Sound p y where
  fair := by rw [hc.table]; exact hfair
  alike := halike
  fits u := by
    rw [hc.table]
    by_cases hu : u = t
    · rw [hu]
      exact hfits
    · rw [hc.others u hu, hc.keyOf hu]
      exact hothers u hu
  names := by
    have hsum := sum_of_others (f := fun u => (c.worker u).station.names)
      (g := fun u => (c'.worker u).station.names) ht fun u hu => by rw [hc.others u hu]
    have hold := h.names
    rw [hc.setup, hc.table]
    omega
  accounts := haccounts

theorem Sound.own (h : c.Sound p x) (ht : t < c.setup.threads) (hc : c.Turned t c')
    (hs : c'.system = c.system)
    (hfits : (c'.worker t).station.Fits x c.table p t (c'.keyOf t))
    (hnames : (c'.worker t).station.names ≤ (c.worker t).station.names)
    (haccounts : c'.Accounts p) : c'.Sound p x :=
  h.turn ht hc h.fair (hs ▸ h.alike) (fun u _ => h.fits u) hfits (by omega) haccounts

theorem Sound.lt_of_busy (h : c.Sound p x) (hs : (c.worker t).station ≠ .start)
    (ho : (c.worker t).station ≠ .over) : (c.worker t).iteration < c.setup.iterations := by
  have htimely := h.accounts.timely t
  unfold Worker.Timely at htimely
  split at htimely
  · next hstart => exact absurd hstart hs
  · next hover => exact absurd hover ho
  · exact htimely

/-! ## Turns of a worker that make no move -/

theorem Sound.over (h : c.Sound p x) (ht : t < c.setup.threads)
    (hs : (c.worker t).station = .start) (hn : ¬ (c.worker t).iteration < c.setup.iterations) :
    (c.moveTo t .over).Sound p x := by
  have hfits := h.fits t
  have htimely := h.accounts.timely t
  rw [hs] at hfits
  rw [Worker.Timely, hs] at htimely
  have hturned := turned_moveTo c t .over
  refine h.own ht hturned rfl ?_ ?_ (h.accounts.turn hturned ht ?_ ?_ ?_ h.accounts.clean)
  · rw [worker_moveTo_self]
    exact hfits
  · rw [worker_moveTo_self]
    exact Nat.zero_le _
  · rw [worker_moveTo_self]
    exact Nat.le_antisymm htimely (Nat.le_of_not_lt hn)
  · intro key
    rw [marks_moveTo, marks, hs]
    rfl
  · rw [worker_moveTo_self, Worker.settled, Worker.settled, hs]
    rfl

theorem Sound.refused (h : c.Sound p x) (ht : t < c.setup.threads) {e : LockError}
    (hs : (c.worker t).station = .refused e) :
    ({ c with tally := c.tally.fail e }.nextIteration t).Sound p x := by
  have hfits := h.fits t
  rw [hs] at hfits
  obtain ⟨hi, he, hp⟩ := hfits
  have hlt := h.lt_of_busy (t := t) (by rw [hs]; exact nofun) (by rw [hs]; exact nofun)
  have hturned : c.Turned t ({ c with tally := c.tally.fail e }.nextIteration t) :=
    ⟨rfl, rfl, fun u hu => (worker_nextIteration ..).trans (if_neg hu)⟩
  have hself := worker_nextIteration_self { c with tally := c.tally.fail e } t
  refine h.own ht hturned rfl ?_ ?_
    (h.accounts.nextIteration ht hlt ?_ ?_ (h.accounts.clean.fail hp))
  · rw [hself]
    exact ⟨hi, he⟩
  · rw [hself]
    exact Nat.zero_le _
  · rw [hs]
    rfl
  · rw [hs, Tally.total_fail hp]
    rfl

/-- A worker that goes to another station of its iteration, with marks and counts of its own. -/
theorem Sound.goTo (h : c.Sound p x) (ht : t < c.setup.threads) {inside : Arena Nat} {tally : Tally}
    (hbusy : (c.worker t).station ≠ .start ∧ (c.worker t).station ≠ .over) (hs : s ≠ .over)
    (hfits : s.Fits x c.table p t (c.keyOf t)) (hnames : s.names ≤ (c.worker t).station.names)
    (hinside : ∀ key, inside.get key + c.marks key t =
      c.inside.get key + if c.keyOf t = key then s.marks else 0)
    (htotal : tally.total + (c.worker t).station.counts = c.tally.total + s.counts)
    (hclean : tally.Clean p) : ({ c with inside, tally }.moveTo t s).Sound p x := by
  have hlt := h.lt_of_busy hbusy.1 hbusy.2
  have hturned : c.Turned t ({ c with inside, tally }.moveTo t s) :=
    ⟨rfl, rfl, fun u hu => (worker_moveTo ..).trans (if_neg hu)⟩
  have hself := worker_moveTo_self { c with inside, tally } t s
  have hkey := keyOf_moveTo { c with inside, tally } t s t
  refine h.own ht hturned rfl ?_ ?_ (h.accounts.turn hturned ht ?_ (fun key => ?_) ?_ hclean)
  · rw [hself, hkey]
    exact hfits
  · rw [hself]
    exact hnames
  · rw [hself]
    unfold Worker.Timely
    split
    · exact Nat.le_of_lt hlt
    · next hover => exact absurd hover hs
    · exact hlt
  · rw [marks_moveTo]
    exact hinside key
  · rw [hself]
    show tally.total + ((c.worker t).iteration + (c.worker t).station.counts) =
      c.tally.total + ((c.worker t).iteration + s.counts)
    omega

/-- Nobody is inside the key of a worker that has its lock and has not entered. -/
theorem Sound.alone (h : c.Sound p x) {g : Handle} (hs : (c.worker t).station = .entering g) :
    c.inside.get (c.keyOf t) = 0 := by
  have hfits := h.fits t
  rw [hs] at hfits
  rw [h.accounts.inside]
  apply Finset.sum_eq_zero
  intro u _
  rw [marks]
  split
  · next hkey =>
    have hother := h.fits u
    rw [hkey] at hother
    -- A worker that is inside has the lock of the key, so it would be `t`.
    have hne {g' : Handle} (hb : Bears x c.table u (c.keyOf t) g') : (c.worker u).station =
        .entering g := by
      rw [← hfits.2.unique hb h.fair.reachable]
      exact hs
    generalize hst : (c.worker u).station = st at hother hne
    cases st with
    | holding | leaving => cases hne hother.2
    | _ => rfl
  · rfl

theorem Sound.enter (h : c.Sound p x) (ht : t < c.setup.threads) {g : Handle} (deadline : Nat)
    (hs : (c.worker t).station = .entering g) :
    ({ c with inside := c.inside.set (c.keyOf t) (c.inside.get (c.keyOf t) + 1) }.moveTo t
      (.holding g deadline)).Sound p x := by
  have hfits := h.fits t
  rw [hs] at hfits
  refine h.goTo ht (by rw [hs]; exact ⟨nofun, nofun⟩) nofun hfits (by rw [hs]; rfl) (fun key => ?_)
    (by rw [hs]; rfl) h.accounts.clean
  rw [Arena.get_set, marks, hs]
  by_cases hkey : key = c.keyOf t
  · subst hkey
    simp only [if_true]
    rfl
  · simp only [hkey, Ne.symm hkey, if_false]

theorem Sound.leave (h : c.Sound p x) (ht : t < c.setup.threads) {g : Handle}
    (hs : (c.worker t).station = .leaving g) :
    ({ c with inside := c.inside.modify (c.keyOf t) (· - 1) }.moveTo t
      (.counting g)).Sound p x := by
  have hfits := h.fits t
  rw [hs] at hfits
  refine h.goTo ht (by rw [hs]; exact ⟨nofun, nofun⟩) nofun hfits (by rw [hs]; rfl) (fun key => ?_)
    (by rw [hs]; rfl) h.accounts.clean
  have hself : c.marks (c.keyOf t) t = 1 := by
    rw [marks, if_pos rfl, hs]
    rfl
  rw [Arena.get_modify]
  by_cases hkey : key = c.keyOf t
  · subst hkey
    have hle : c.marks (c.keyOf t) t ≤ c.inside.get (c.keyOf t) := by
      rw [h.accounts.inside]
      exact Finset.single_le_sum (f := c.marks (c.keyOf t)) (fun _ _ => Nat.zero_le _)
        (Finset.mem_range.mpr ht)
    simp only [if_true, hself]
    show _ = c.inside.get (c.keyOf t) + 0
    omega
  · rw [marks]
    simp only [hkey, Ne.symm hkey, if_false]

/-! ## Turns of a worker that make a move -/

/-- A worker makes a move and goes to another station of its iteration. -/
theorem Sound.moveTo (h : c.Sound p x) (ht : t < c.setup.threads) {system : System}
    (hm : m = .act t ∨ ∃ k, m = .call t k) (ha : x.allows m) (hy : x.move m = some y)
    (hsys : y.system.Alike system)
    (hlt : (c.worker t).iteration < c.setup.iterations) (hs : s ≠ .over)
    (hmarks : s.marks = (c.worker t).station.marks)
    (hcounts : s.counts = (c.worker t).station.counts)
    (hfits : s.Fits y c.table p t (c.keyOf t))
    (hnames : s.names + x.names.count c.table ≤
      y.names.count c.table + (c.worker t).station.names) :
    ({ c with system }.moveTo t s).Sound p y := by
  have hraise (v : ThreadId) (hv : m = .act v) : ∀ u, x.phase v ≠ .interrupting u .raise := by
    rcases hm with rfl | ⟨k, rfl⟩ <;> cases hv
    exact (h.fits t).quiet.2
  have hturned : c.Turned t ({ c with system }.moveTo t s) :=
    ⟨rfl, rfl, fun u hu => (worker_moveTo ..).trans (if_neg hu)⟩
  have hself := worker_moveTo_self { c with system } t s
  have hkey := keyOf_moveTo { c with system } t s t
  have haccounts : { c with system }.Accounts p := { h.accounts with }
  refine h.turn ht hturned (h.fair.move ha hy hraise) hsys ?_ ?_ ?_
    (haccounts.moveTo ht hlt hs hmarks hcounts)
  · exact fun u hu => (h.fits u).of_other h.fair.reachable hm hy hu
  · rw [hself, hkey]
    exact hfits
  · rw [hself]
    exact hnames

theorem Sound.call (h : c.Sound p x) (ht : t < c.setup.threads) {k : Call}
    (hc : c.call t k s = some c') (ha : x.allows (.call t k))
    (hlt : (c.worker t).iteration < c.setup.iterations) (hs : s ≠ .over)
    (hmarks : s.marks = (c.worker t).station.marks)
    (hcounts : s.counts = (c.worker t).station.counts)
    (hfits : ∀ {y}, x.move (.call t k) = some y → s.Fits y c.table p t (c.keyOf t))
    (hnames : s.names + x.names.count c.table ≤
      (k.spends.elim x.names x.names.erase).count c.table + (c.worker t).station.names) :
    ∃ y, c'.Sound p y := by
  obtain ⟨system, hsys, rfl⟩ := Option.map_eq_some_iff.mp hc
  obtain ⟨hi, rfl⟩ := System.call_eq_some_iff.mp hsys
  rw [h.alike.phase] at hi
  have hi : x.phase t = .idle := hi
  obtain ⟨y, hy, -, hn, hys⟩ := Session.exists_move_call hi k
  refine ⟨y, h.moveTo ht (.inr ⟨k, rfl⟩) ha hy ?_ hlt hs hmarks hcounts
    (hfits hy) (hn ▸ hnames)⟩
  have hb : k.begin c.system.now c.system.memory = k.begin x.system.now x.memory := by
    rw [h.alike.now, h.alike.memory]
  show y.system.Alike (c.system.after t (.moveTo (k.begin c.system.now c.system.memory).1
    (k.begin c.system.now c.system.memory).2))
  rw [hys, hb]
  exact h.alike.after t _

theorem foldl_takeNote (notes : List Note) : notes.foldl (·.takeNote t ·) c =
    (notes.filterMap Note.outcome?).foldl (·.resume t ·) c := by
  induction notes generalizing c with
  | nil => rfl
  | cons n notes ih =>
    rw [List.foldl_cons, ih]
    cases n <;> rfl

theorem Sound.acted (h : c.Sound p x) (hc : c.carryOn t = some c') : ∃ st y, x.Acted t st y ∧
    y.system.Alike (c.system.after t st) ∧
    c' = st.answers.foldl (·.resume t ·) { c with system := c.system.after t st } := by
  obtain ⟨⟨system, notes⟩, hact, rfl⟩ := Option.map_eq_some_iff.mp hc
  obtain ⟨st, hst, rfl, rfl⟩ := System.act_eq_some_iff.mp hact
  rw [h.alike.phase, h.alike.now, h.alike.memory] at hst
  obtain ⟨y, hy⟩ := Session.exists_acted hst
  refine ⟨st, y, hy, ?_, foldl_takeNote _⟩
  rw [hy.system]
  exact h.alike.after t st

theorem Sound.allows (h : c.Sound p x) (t : ThreadId) : x.allows (.act t) :=
  Session.allows_act_iff.mpr fun j hj => absurd hj ((h.fits t).quiet.1 j)

theorem Sound.goOn (h : c.Sound p x) (ht : t < c.setup.threads) {system : System}
    (hy : x.move (.act t) = some y) (hsys : y.system.Alike system)
    (hfits : (c.worker t).station.Fits y c.table p t (c.keyOf t)) (hnames : y.names = x.names) :
    { c with system }.Sound p y := by
  have hturned : c.Turned t { c with system } := ⟨rfl, rfl, fun _ _ => rfl⟩
  have hraise (v : ThreadId) (hv : Move.act t = .act v) :
      ∀ u, x.phase v ≠ .interrupting u .raise := by
    cases hv
    exact (h.fits t).quiet.2
  refine h.turn ht hturned (h.fair.move (h.allows t) hy hraise) hsys ?_ hfits ?_ { h.accounts with }
  · exact fun u hu => (h.fits u).of_other h.fair.reachable (.inl rfl) hy hu
  · rw [hnames]
    exact Nat.le_of_eq (Nat.add_comm ..)

theorem resume_with (c : Contention) (system : System) (t : ThreadId) (o : Outcome) :
    { c with system }.resume t o = match (c.worker t).station, o with
      | .obtaining, .obtained h => { c with system }.moveTo t (.entering h)
      | .obtaining, .refused e => { c with system }.moveTo t (.refused e)
      | .releasing h, .refused e => { c with system }.moveTo t (.failed h e)
      | .releasing h, _ => { c with system }.moveTo t (.dropping h)
      | .dropped, _ => { c with system }.nextIteration t
      | _, _ => { c with system } := rfl

theorem Sound.obtaining (h : c.Sound p x) (ht : t < c.setup.threads)
    (hs : (c.worker t).station = .obtaining) (hc : c.carryOn t = some c') : ∃ y, c'.Sound p y := by
  have hfits := h.fits t
  rw [hs] at hfits
  have hlt := h.lt_of_busy (t := t) (by rw [hs]; exact nofun) (by rw [hs]; exact nofun)
  obtain ⟨st, y, hy, hsys, rfl⟩ := h.acted hc
  refine ⟨y, ?_⟩
  rcases hfits.act_obtaining h.fair.reachable h.fair.policy h.fair.calm hy with
    ⟨hans, hf, hn⟩ | ⟨g, hans, hf, hn⟩ | ⟨e, hans, hf, hn⟩
  · rw [hans]
    exact h.goOn ht hy.move hsys (hs ▸ hf) hn
  · rw [hans, List.foldl_cons, List.foldl_nil, resume_with, hs]
    refine h.moveTo ht (.inl rfl) (h.allows t) hy.move hsys hlt nofun ?_ ?_ hf ?_
    · rw [hs]; rfl
    · rw [hs]; rfl
    · rw [hs, hn, List.count_cons_self]
      exact Nat.le_of_eq (Nat.add_comm ..)
  · rw [hans, List.foldl_cons, List.foldl_nil, resume_with, hs]
    refine h.moveTo ht (.inl rfl) (h.allows t) hy.move hsys hlt nofun ?_ ?_ hf ?_
    · rw [hs]; rfl
    · rw [hs]; rfl
    · rw [hs, hn]
      exact Nat.le_of_eq (Nat.add_comm ..)

theorem Sound.releasing (h : c.Sound p x) (ht : t < c.setup.threads) {g : Handle}
    (hs : (c.worker t).station = .releasing g) (hc : c.carryOn t = some c') :
    ∃ y, c'.Sound p y := by
  have hfits := h.fits t
  rw [hs] at hfits
  have hlt := h.lt_of_busy (t := t) (by rw [hs]; exact nofun) (by rw [hs]; exact nofun)
  obtain ⟨st, y, hy, hsys, rfl⟩ := h.acted hc
  refine ⟨y, ?_⟩
  obtain ⟨hn, ⟨hans, hf⟩ | ⟨hans, hf⟩⟩ := hfits.act_releasing h.fair.reachable hy
  · rw [hans]
    exact h.goOn ht hy.move hsys (hs ▸ hf) hn
  · rw [hans, List.foldl_cons, List.foldl_nil, resume_with, hs]
    refine h.moveTo ht (.inl rfl) (h.allows t) hy.move hsys hlt nofun ?_ ?_ hf ?_
    · rw [hs]; rfl
    · rw [hs]; rfl
    · rw [hs, hn]
      exact Nat.le_of_eq (Nat.add_comm ..)

theorem Sound.dropped (h : c.Sound p x) (ht : t < c.setup.threads)
    (hs : (c.worker t).station = .dropped) (hc : c.carryOn t = some c') : ∃ y, c'.Sound p y := by
  have hfits := h.fits t
  rw [hs] at hfits
  have hlt := h.lt_of_busy (t := t) (by rw [hs]; exact nofun) (by rw [hs]; exact nofun)
  obtain ⟨st, y, hy, hsys, rfl⟩ := h.acted hc
  obtain ⟨hans, hf, hn⟩ := hfits.act_dropped hy
  refine ⟨y, ?_⟩
  rw [hans, List.foldl_cons, List.foldl_nil, resume_with, hs]
  have haccounts : { c with system := c.system.after t st }.Accounts p := { h.accounts with }
  have hturned : c.Turned t ({ c with system := c.system.after t st }.nextIteration t) :=
    ⟨rfl, rfl, fun u hu => (worker_nextIteration ..).trans (if_neg hu)⟩
  have hself := worker_nextIteration_self { c with system := c.system.after t st } t
  refine h.turn ht hturned (h.fair.move (h.allows t) hy.move ?_) hsys ?_ ?_ ?_
    (haccounts.nextIteration ht hlt ?_ ?_ h.accounts.clean)
  · rintro v ⟨⟩
    exact (h.fits t).quiet.2
  · exact fun u hu => (h.fits u).of_other h.fair.reachable (.inl rfl) hy.move hu
  · rw [hself]
    exact hf
  · rw [hself, hs, hn]
    exact Nat.le_of_eq (Nat.add_comm ..)
  · show (c.worker t).station.marks = 0
    rw [hs]
    rfl
  · show _ + (c.worker t).station.counts = _
    rw [hs]
    rfl

theorem Sound.mem_names (h : c.Sound p x) : c.table ∈ x.names := by
  have hnames := h.names
  exact List.count_pos_iff.mp (by omega)

theorem Sound.begin (h : c.Sound p x) (ht : t < c.setup.threads)
    (hs : (c.worker t).station = .start) (hlt : (c.worker t).iteration < c.setup.iterations)
    (hc : c.call t (.obtain c.table (keyName (c.keyOf t))) .obtaining = some c') :
    ∃ y, c'.Sound p y := by
  have hfits := h.fits t
  rw [hs] at hfits
  refine h.call ht hc (decide_eq_true h.mem_names) hlt nofun ?_ ?_
    (fun hy => Station.fits_obtaining hfits.2 hy) ?_
  · rw [hs]; rfl
  · rw [hs]; rfl
  · rw [hs]
    exact Nat.le_of_eq (Nat.add_comm ..)

theorem Sound.returning (h : c.Sound p x) (ht : t < c.setup.threads) {g : Handle}
    (hs : (c.worker t).station = .returning g)
    (hc : c.call t (.release g) (.releasing g) = some c') : ∃ y, c'.Sound p y := by
  have hfits := h.fits t
  rw [hs] at hfits
  have hlt := h.lt_of_busy (t := t) (by rw [hs]; exact nofun) (by rw [hs]; exact nofun)
  have hallows : x.allows (.call t (.release g)) := by
    refine Bool.and_eq_true_iff.mpr ⟨hfits.2.issued, decide_eq_true ?_⟩
    rw [hfits.2.table]
    exact h.mem_names
  refine h.call ht hc hallows hlt nofun ?_ ?_
    (fun hy => Station.fits_releasing hfits.2 h.fair.reachable hy) ?_
  · rw [hs]; rfl
  · rw [hs]; rfl
  · rw [hs]
    exact Nat.le_of_eq (Nat.add_comm ..)

/-- The worker drops its handle, and with it a name of the table, but not the last one. -/
theorem Sound.dropping (h : c.Sound p x) (ht : t < c.setup.threads) {g : Handle}
    (hs : (c.worker t).station = .dropping g)
    (hc : c.call t (.act (.forgo g.table)) .dropped = some c') : ∃ y, c'.Sound p y := by
  have hfits := h.fits t
  rw [hs] at hfits
  obtain ⟨htable, -, he⟩ := hfits
  rw [htable] at hc
  have hlt := h.lt_of_busy (t := t) (by rw [hs]; exact nofun) (by rw [hs]; exact nofun)
  refine h.call ht hc (decide_eq_true h.mem_names) hlt nofun ?_ ?_
    (fun hy => Station.fits_dropped he hy) ?_
  · rw [hs]; rfl
  · rw [hs]; rfl
  · rw [hs]
    show 0 + x.names.count c.table ≤ (x.names.erase c.table).count c.table + 1
    have hpos := List.count_pos_iff.mpr h.mem_names
    rw [List.count_erase_self]
    omega

/-! ## All turns -/

/-- **Every turn of a worker keeps the contention sound.** -/
theorem Sound.act (h : c.Sound p x) (ht : t < c.setup.threads) (hc : c.act t = some c') :
    ∃ y, c'.Sound p y := by
  have hfits := h.fits t
  unfold Contention.act at hc
  split at hc
  · next hs =>
    split at hc
    · next hlt => exact h.begin ht hs hlt hc
    · next hn =>
      cases hc
      exact ⟨x, h.over ht hs hn⟩
  · next hs => exact h.obtaining ht hs hc
  · next g hs => exact h.releasing ht hs hc
  · next hs => exact h.dropped ht hs hc
  · next e hs =>
    cases hc
    exact ⟨x, h.refused ht hs⟩
  · next g hs =>
    cases hc
    refine ⟨x, ?_⟩
    rw [if_pos (h.alone hs)]
    exact h.enter ht _ hs
  · next g deadline hs =>
    split at hc <;> cases hc
    rw [hs] at hfits
    refine ⟨x, h.goTo ht (by rw [hs]; exact ⟨nofun, nofun⟩) nofun hfits (by rw [hs]; rfl)
      (fun key => ?_) (by rw [hs]; rfl) h.accounts.clean⟩
    rw [marks, hs]
    rfl
  · next g hs =>
    cases hc
    exact ⟨x, h.leave ht hs⟩
  · next g hs =>
    cases hc
    rw [hs] at hfits
    refine ⟨x, h.goTo ht (by rw [hs]; exact ⟨nofun, nofun⟩) nofun hfits (by rw [hs]; rfl)
      (fun key => ?_) (by rw [hs, Tally.total_succeed]; rfl) h.accounts.clean.succeed⟩
    rw [marks, hs]
    rfl
  · next g hs => exact h.returning ht hs hc
  · next g e hs =>
    rw [hs] at hfits
    exact hfits.elim
  · next g hs => exact h.dropping ht hs hc
  · cases hc

theorem Sound.rouse (h : c.Sound p x) {system : System} (hr : c.system.rouse t = some system) :
    ∃ y, { c with system }.Sound p y := by
  obtain ⟨l, hl, rfl⟩ := System.rouse_eq_some_iff.mp hr
  rw [h.alike.asleepOn] at hl
  have hy : x.move (.rouse t) = some { x with system := { x.system with
      memory := x.memory.rouse l t } } :=
    Option.map_eq_some_iff.mpr ⟨_, System.rouse_eq_some_iff.mpr ⟨l, hl, rfl⟩, rfl⟩
  refine ⟨_, h.fair.move rfl hy nofun, ?_, fun u => ?_, h.names, { h.accounts with }⟩
  · exact ⟨congrArg (·.rouse l t) h.alike.memory, h.alike.now, h.alike.phase⟩
  · exact (h.fits u).move h.fair.reachable hy nofun rfl

theorem Sound.tick (h : c.Sound p x) (d : Nat) :
    ∃ y, { c with system := c.system.tick d }.Sound p y := by
  have hy : x.move (.tick d) = some { x with system := x.system.tick d } := rfl
  refine ⟨_, h.fair.move rfl hy nofun, ?_, fun u => ?_, h.names, { h.accounts with }⟩
  · exact ⟨h.alike.memory, congrArg (· + d) h.alike.now, h.alike.phase⟩
  · exact (h.fits u).move h.fair.reachable hy nofun rfl

/-- **Every turn keeps the contention sound.** -/
theorem Sound.turns (h : c.Sound p x) (hc : c.Turns c') : ∃ y, c'.Sound p y := by
  induction hc generalizing x with
  | refl => exact ⟨x, h⟩
  | @step c c₁ c₂ a ha _ ih =>
    have hnext : ∃ y, c₁.Sound p y := by
      cases a with
      | act t =>
        have ha : (if t < c.setup.threads then c.act t else none) = some c₁ := ha
        split at ha
        · next ht => exact h.act ht ha
        · cases ha
      | rouse t =>
        obtain ⟨system, hr, rfl⟩ := Option.map_eq_some_iff.mp ha
        exact h.rouse hr
      | tick d => cases ha; exact h.tick d
    obtain ⟨y, hy⟩ := hnext
    exact ih hy

/-- The session behind a contention that nobody has begun: somebody has made the table. -/
theorem sound_start (setup : Setup) (policy : Policy) :
    ∃ x, (start setup policy).Sound policy x := by
  let made : Action := .makeTable policy false
  let asked : Session := { system := { phases := Arena.empty.set 0 (.acting made) } }
  let x : Session :=
    { system :=
        { memory := ({} : Memory).addTable policy, phases := asked.system.phases.set 0 .idle }
      names := [0] }
  have hcall : ({} : Session).move (.call 0 (.act made)) = some asked := rfl
  have hact : asked.move (.act 0) = some x := rfl
  have hidle (t : ThreadId) : x.phase t = .idle := by
    show ((Arena.empty.set 0 (Phase.acting made)).set 0 .idle).get t = .idle
    rw [Arena.set_set, Arena.get_set]
    split
    · rfl
    · rfl
  have hreach : x.Reachable := .move (.move .start rfl hcall) rfl hact
  have hzero (f : ThreadId → Nat) (hf : ∀ t, f t = 0) : ∑ t ∈ range setup.threads, f t = 0 :=
    Finset.sum_eq_zero fun t _ => hf t
  have haccounts : (start setup policy).Accounts policy :=
    { staff := fun _ _ => rfl
      timely := fun _ => Nat.zero_le _
      inside := fun _ => (hzero _ fun _ => ite_self _).symm
      total := (hzero _ fun _ => rfl).symm
      clean := ⟨rfl, rfl, rfl, fun _ => rfl, fun _ => rfl⟩ }
  refine ⟨x, ⟨hreach, Nat.one_pos, rfl, rfl⟩, ⟨rfl, rfl, fun t => (hidle t).symm⟩,
    fun t => ⟨hidle t, fun _ => rfl⟩, ?_, haccounts⟩
  have hnone : ∑ t ∈ range setup.threads, ((start setup policy).worker t).station.names = 0 :=
    hzero _ fun t => rfl
  show ∑ t ∈ range setup.threads, ((start setup policy).worker t).station.names < 1
  rw [hnone]
  exact Nat.one_pos

/-! ## One order among all -/

theorem setup_foldl_resume (os : List Outcome) :
    (os.foldl (·.resume t ·) c).setup = c.setup := by
  induction os generalizing c with
  | nil => rfl
  | cons o os ih =>
    rw [List.foldl_cons, ih]
    unfold resume
    split <;> rfl

theorem setup_of_act (h : c.act t = some c') : c'.setup = c.setup := by
  have hcall {k : Call} {s : Station} (hc : c.call t k s = some c') : c'.setup = c.setup := by
    obtain ⟨system, -, rfl⟩ := Option.map_eq_some_iff.mp hc
    rfl
  have hcarryOn (hc : c.carryOn t = some c') : c'.setup = c.setup := by
    obtain ⟨⟨system, notes⟩, -, rfl⟩ := Option.map_eq_some_iff.mp hc
    dsimp only
    rw [foldl_takeNote, setup_foldl_resume]
  unfold Contention.act at h
  split at h
  · split at h
    · exact hcall h
    · cases h; rfl
  · exact hcarryOn h
  · exact hcarryOn h
  · exact hcarryOn h
  · cases h; rfl
  · cases h; rfl
  · split at h <;> cases h; rfl
  · cases h; rfl
  · cases h; rfl
  · exact hcall h
  · cases h; rfl
  · exact hcall h
  · cases h

theorem setup_of_turn {a : Turn} (h : c.turn a = some c') : c'.setup = c.setup := by
  cases a with
  | act t =>
    have h : (if t < c.setup.threads then c.act t else none) = some c' := h
    split at h
    · exact setup_of_act h
    · cases h
  | rouse t =>
    obtain ⟨system, -, rfl⟩ := Option.map_eq_some_iff.mp h
    rfl
  | tick d => cases h; rfl

theorem setup_of_turns (h : c.Turns c') : c'.setup = c.setup := by
  induction h with
  | refl => rfl
  | step ha _ ih => rw [ih, setup_of_turn ha]

theorem turns_stint (ht : t < c.setup.threads) (n : Nat) : c.Turns (c.stint t n).1 := by
  induction n generalizing c with
  | zero => exact .refl c
  | succ n ih =>
    unfold stint
    split
    · exact .refl c
    · next d hd =>
      have hturn : c.turn (.act t) = some d := by
        show (if t < c.setup.threads then c.act t else none) = _
        rw [if_pos ht, hd]
      have hd' : t < d.setup.threads := by
        rw [setup_of_turn hturn]
        exact ht
      exact .step hturn (ih hd')

theorem turns_round (c : Contention) : c.Turns c.round.1 := by
  suffices h : ∀ (ts : List ThreadId) (d : Contention) (longest : Nat),
      (∀ t ∈ ts, t < d.setup.threads) →
      d.Turns (ts.foldl (fun r t => ((r.1.stint t stintLength).1,
        max r.2 (r.1.stint t stintLength).2)) (d, longest)).1 from
    h c.threads c 0 fun t ht => List.mem_range.mp ht
  intro ts
  induction ts with
  | nil => exact fun d _ _ => .refl d
  | cons t ts ih =>
    intro d longest hts
    have hfirst := turns_stint (hts t (List.mem_cons_self ..)) stintLength
    refine hfirst.trans (ih _ _ fun u hu => ?_)
    rw [setup_of_turns hfirst]
    exact hts u (List.mem_cons_of_mem _ hu)

theorem turns_passTo (c : Contention) (moment : Nat) : c.Turns (c.passTo moment) := by
  suffices h : ∀ (ts : List ThreadId) (s : System),
      { c with system := s }.Turns
        { c with system := ts.foldl (fun s t => (s.rouse t).getD s) s } from
    .step (x := .tick (moment - c.system.now)) rfl (h _ _)
  intro ts
  induction ts with
  | nil => exact fun s => .refl _
  | cons t ts ih =>
    intro s
    rcases hr : s.rouse t with _ | s'
    · rw [List.foldl_cons, hr]
      exact ih s
    · rw [List.foldl_cons, hr]
      refine .step (x := .rouse t) ?_ (ih s')
      show (s.rouse t).map _ = _
      rw [hr]
      rfl

/-- The order of turns that `run` picks is one of them. -/
theorem turns_run (fuel : Nat) (c : Contention) : c.Turns (run fuel c) := by
  induction fuel generalizing c with
  | zero => exact .refl c
  | succ fuel ih =>
    have hround := turns_round c
    unfold run
    generalize c.round = r at hround
    obtain ⟨d, actions⟩ := r
    dsimp only
    split
    · exact (hround.trans (turns_passTo d _)).trans (ih _)
    · split
      · exact hround
      · exact (hround.trans (turns_passTo d _)).trans (ih _)

/-! ## Reports -/

/-- What is to be told of a contention that is over. -/
structure Report.Accounted (s : Setup) (policy : Policy) (r : Report) : Prop where
  setup : r.setup = s
  /-- Each iteration is counted once. -/
  total : r.tally.acquired + r.tally.tooManyQueued + r.tally.attemptsExceeded =
    s.threads * s.iterations
  violations : r.tally.violations = 0
  deadlocks : r.tally.deadlocks = 0
  interrupted : r.tally.interrupted = 0
  leaked : r.leaked = 0
  unlimited : policy.attempts = none → policy.queueLimit = none →
    r.tally.acquired = s.threads * s.iterations

/-- Nobody holds anything when all workers are done, so no key is registered. -/
theorem Sound.leaked (h : c.Sound p x)
    (ho : ∀ t, (c.worker t).station = .over ∨ (c.worker t).station = .start) :
    c.system.memory.activeLocks c.table = 0 := by
  have hdone (t : ThreadId) : x.phase t = .idle ∧ x.EmptyHanded t := by
    have hfits := h.fits t
    rcases ho t with hs | hs <;>
      · rw [hs] at hfits
        exact hfits
  have hord := h.fair.reachable.orderly
  have hrest : x.AtRest := fun t => .inl (hdone t).1
  have hnone : {i | ∃ t, x.Holds t c.table i} = ∅ := by
    rw [Set.eq_empty_iff_forall_notMem]
    rintro i ⟨t, ht⟩
    obtain ⟨l, hl⟩ := hord.entry_of_holds ht
    have hpos := (hord.holds_iff hl).mp ht
    rw [(hdone t).2 l] at hpos
    exact Int.lt_irrefl 0 hpos
  rw [h.alike.memory]
  show x.memory.activeLocks c.table = 0
  rw [hrest.activeLocks_eq hord, hnone, Set.ncard_empty]

/-- **A contention that is over has counted each iteration once and left nothing behind.** -/
theorem accounted_of_over {setup : Setup} {policy : Policy} (h : (start setup policy).Turns c)
    (ho : c.isOver) : c.report.Accounted setup policy := by
  obtain ⟨x₀, hx₀⟩ := sound_start setup policy
  obtain ⟨x, hx⟩ := hx₀.turns h
  have hsetup : c.setup = setup := setup_of_turns h
  have hover (t : ThreadId) (ht : t < c.setup.threads) : (c.worker t).station = .over :=
    of_decide_eq_true (List.all_eq_true.mp ho t (List.mem_range.mpr ht))
  have htotal : c.tally.acquired + c.tally.tooManyQueued + c.tally.attemptsExceeded =
      setup.threads * setup.iterations := by
    have hsettled (t : ThreadId) (ht : t ∈ range c.setup.threads) :
        (c.worker t).settled = c.setup.iterations := by
      have hs := hover t (Finset.mem_range.mp ht)
      have htimely := hx.accounts.timely t
      rw [Worker.Timely, hs] at htimely
      rw [Worker.settled, hs]
      exact htimely
    have hsum := hx.accounts.total
    rw [Finset.sum_congr rfl hsettled, Finset.sum_const, Finset.card_range, hsetup] at hsum
    exact hsum
  have hclean := hx.accounts.clean
  refine ⟨hsetup, htotal, hclean.violations, hclean.deadlocks, hclean.interrupted,
    hx.leaked fun t => ?_, fun ha hq => ?_⟩
  · rcases Nat.lt_or_ge t c.setup.threads with ht | ht
    · exact .inl (hover t ht)
    · exact .inr (hx.accounts.staff t ht)
  · have hattempts := hclean.attempts ha
    have hqueue := hclean.queue hq
    show c.tally.acquired = _
    omega

end

/-- Two workers, two iterations each, and one key that each of them holds for a while. -/
def rivals : Setup := ⟨2, 1, 2, .ofMillis 1⟩

theorem accounted_of_over_rivals : ∃ c, (start rivals System.hasty).Turns c ∧ c.isOver ∧
    c.tally.acquired = 2 ∧ c.tally.attemptsExceeded = 2 ∧
    c.report.Accounted rivals System.hasty := by
  have hover : (run 10 (start rivals System.hasty)).isOver ∧
      (run 10 (start rivals System.hasty)).tally = { acquired := 2, attemptsExceeded := 2 } := by
    decide +kernel
  have hturns := turns_run 10 (start rivals System.hasty)
  exact ⟨_, hturns, hover.1, by rw [hover.2], by rw [hover.2], accounted_of_over hturns hover.1⟩

end Contention

end KeyedLocks
