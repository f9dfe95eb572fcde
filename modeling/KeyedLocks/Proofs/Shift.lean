import KeyedLocks.Proofs.Actions
import KeyedLocks.Proofs.Holdings
import KeyedLocks.Proofs.Session

/-!
# Stakes and shifts

A `Stake` is what the phase of a thread means for the holdings: whether it has a hold in its hands
that nobody was granted yet, and whether it still has to look after a lock. `Shift me H p ds H' p'`
lists all that an action of `me` can do to the holdings and to its own stake, and the deals it makes
thereby. `Phase.next_shifts` says that every action of every phase is a shift: what follows about
holds and about the life of locks is proved about shifts.
-/

namespace KeyedLocks

inductive Stake where
  /-- Nothing but whole holds. -/
  | none
  /-- At work on a lock by itself, outside of all tables. -/
  | raw
  /-- About to try a lock it looked up. -/
  | seek (a : Attempt)
  /-- It could not have the lock, and may wait for it. -/
  | wait (a : Attempt)
  /-- It took the lock, and has not looked whether that is closed. -/
  | taken (a : Attempt)
  /-- It took a closed lock, and will give it back. -/
  | back (a : Attempt)
  /-- It gave back a closed lock, and will take it out of its table. -/
  | discard (a : Attempt)
  | release (h : Handle) (s : ReleaseStage)

def Phase.stake : Phase → Stake
  | .tryTake a => .seek a
  | .readQueue a | .checking (.attempt a _) _ | .spend a _ | .waiting (.attempt a _) _ _ => .wait a
  | .readClosed a => .taken a
  | .backOut a => .back a
  | .notifyBackOut a | .discard a => .discard a
  | .releasing h _ s => .release h s
  | .checking (.plain _) _ | .waiting (.plain _) _ _ | .unlocking .. | .notifying _
  | .acting (.tryLock _) | .acting (.wake _) | .acting (.close _) | .acting (.makeLock _) => .raw
  | .idle | .lookUp .. | .insert .. | .interrupting .. | .acting (.clearInterrupt _)
  | .acting (.makeTable ..) | .acting (.retain _) | .acting (.forgo _) => .none

/-- What an action of `me` does to the holdings and to its stake, and the deals it makes. -/
inductive Shift (me : ThreadId) : Holdings → Stake → List Deal → Holdings → Stake → Prop where
  | rest {H} : Shift me H .none [] H .none
  -- Acquisitions.
  | find {H t identifier a} : a.table = some t → (H.entries t).lookup identifier = some a.lock →
      Shift me H .none [] H (.seek a)
  | create {H t identifier a} : a.table = some t → a.lock = H.fresh →
      (H.entries t).lookup identifier = none →
      Shift me H .none [] (H.create t identifier) (.seek a)
  | take {H p a} : p = .seek a ∨ p = .wait a → H.FreeFor a.lock me →
      Shift me H p [] (H.add a.lock me) (.taken a)
  | miss {H a o} : o ≠ me → 0 < H.held a.lock o → Shift me H (.seek a) [] H (.wait a)
  | stay {H a} : Shift me H (.wait a) [] H (.wait a)
  | giveUp {H a} : Shift me H (.wait a) [] H .none
  | grant {H a t} : a.table = some t → H.closed a.lock = false →
      Shift me H (.taken a) [⟨me, ⟨t, a.lock⟩, H.identifier a.lock, true⟩] H .none
  | live {H a} : a.table = none → Shift me H (.taken a) [] H .none
  | shut {H a} : H.closed a.lock = true → Shift me H (.taken a) [] H (.back a)
  | backOut {H a} : 0 < H.held a.lock me →
      Shift me H (.back a) [] (H.sub a.lock me) (.discard a)
  | backOutFails {H a} : H.held a.lock me = 0 → Shift me H (.back a) [] H (.discard a)
  | backedOut {H a} : Shift me H (.discard a) [] H (.discard a)
  | discard {H a t} : a.table = some t →
      Shift me H (.discard a) [] (H.remove t a.lock) .none
  | closed {H a} : a.table = none → Shift me H (.discard a) [] H .none
  -- Releases.
  | refuse {H h} : H.held h.lock me = 0 → Shift me H (.release h .unlock) [] H .none
  | unlock {H h s} : 0 < H.held h.lock me → s = .notify ∨ s = .probe →
      Shift me H (.release h .unlock) [⟨me, h, H.identifier h.lock, false⟩]
        (H.sub h.lock me) (.release h s)
  | notify {H h} : Shift me H (.release h .notify) [] H (.release h .probe)
  | probe {H h} : H.FreeFor h.lock me →
      Shift me H (.release h .probe) [] (H.add h.lock me) (.release h .count)
  | yield {H h o} : o ≠ me → 0 < H.held h.lock o → Shift me H (.release h .probe) [] H .none
  | alone {H h} : H.held h.lock me = 1 →
      Shift me H (.release h .count) [] H (.release h .close)
  | inUse {H h} : H.held h.lock me ≠ 1 →
      Shift me H (.release h .count) [] H (.release h .unprobe)
  | close {H h} : Shift me H (.release h .close) [] (H.close h.lock) (.release h .remove)
  | remove {H h} :
      Shift me H (.release h .remove) [] (H.remove h.table h.lock) (.release h .unprobe)
  | unprobe {H h p} : 0 < H.held h.lock me → p = .none ∨ p = .release h .notifyProbe →
      Shift me H (.release h .unprobe) [] (H.sub h.lock me) p
  | unprobeFails {H h} : H.held h.lock me = 0 → Shift me H (.release h .unprobe) [] H .none
  | disposed {H h} : Shift me H (.release h .notifyProbe) [] H .none
  -- Locks by themselves.
  | rawRest {H} : Shift me H .raw [] H .raw
  | rawEnd {H} : Shift me H .raw [] H .none
  | rawTake {H l} : H.FreeFor l me → Shift me H .raw [] (H.add l me) .none
  | rawRelease {H l p} : 0 < H.held l me → p = .none ∨ p = .raw →
      Shift me H .raw [] (H.sub l me) p
  | rawClose {H l} : Shift me H .raw [] (H.close l) .none
  | rawMake {H identifier} : Shift me H .raw [] (H.addLock identifier) .none

/-- The action that leads `me` from phase `p` to what `st` says is a shift. -/
def Shifts (me : ThreadId) (m : Memory) (p : Phase) (st : Step) : Prop :=
  ∃ H, Shift me m.holdings p.stake (p.deals me m st.phase st.notes) H st.phase.stake ∧
    st.memory.Shows H

section
variable {me : ThreadId} {now : Nat} {m : Memory} {p : Phase} {st : Step}

/-! ## Checks and waits -/

namespace Errand

variable {e : Errand}

/-- What a check or a wait stands for, at all of its phases. -/
def stake : Errand → Stake
  | attempt a _ => .wait a
  | plain _ => .raw

theorem stake_checking (e : Errand) (c : Check) : (Phase.checking e c).stake = e.stake := by
  cases e <;> rfl

theorem stake_waiting (e : Errand) (d : Option Nat) (s : WaitStage) :
    (Phase.waiting e d s).stake = e.stake := by
  cases e <;> rfl

theorem shifts_on (hp : p.stake = e.stake) (hq : st.phase.stake = e.stake)
    (hd : p.deals me m st.phase st.notes = []) (hs : st.memory.Shows m.holdings) :
    Shifts me m p st := by
  refine ⟨_, ?_, hs⟩
  rw [hp, hq, hd]
  cases e with
  | attempt => exact .stay
  | plain => exact .rawRest

theorem shifts_waiting {d : Option Nat} {s s' : WaitStage} {m' : Memory}
    (hs : m'.Shows m.holdings) :
    Shifts me m (.waiting e d s) (.moveTo m' (.waiting e d s')) :=
  shifts_on (stake_waiting ..) (stake_waiting ..) rfl hs

theorem shifts_quit (hp : p.stake = e.stake) (hq : st.phase.stake = .none)
    (hd : p.deals me m st.phase st.notes = []) (hs : st.memory.Shows m.holdings) :
    Shifts me m p st := by
  refine ⟨_, ?_, hs⟩
  rw [hp, hq, hd]
  cases e with
  | attempt => exact .giveUp
  | plain => exact .rawEnd

theorem acquired_shifts {d : Option Nat} {s : WaitStage} {x y : Mutex} (hm : m.Wf)
    (hx : (m.lock e.lock).mutex.take? me = some x) (hy : y.Wf ∧ ∀ u, y.holdsOf u = x.holdsOf u) :
    Shifts me m (.waiting e d s) (e.conclude (m.setMutex e.lock y) .acquired) := by
  cases e with
  | attempt a left =>
    exact ⟨_, .take (.inr rfl) (Memory.freeFor_of_take? hx), hm.take hx hy⟩
  | plain l => exact ⟨_, .rawTake (Memory.freeFor_of_take? hx), hm.take hx hy⟩

theorem timedOut_shifts {d : Option Nat} {s : WaitStage} {m' : Memory}
    (hs : m'.Shows m.holdings) : Shifts me m (.waiting e d s) (e.conclude m' .timedOut) := by
  cases e with
  | attempt a left => exact ⟨_, .stay, hs⟩
  | plain l => exact ⟨_, .rawEnd, hs⟩

theorem interrupted_shifts {d : Option Nat} {s : WaitStage} {m' : Memory}
    (hs : m'.Shows m.holdings) : Shifts me m (.waiting e d s) (e.conclude m' .interrupted) := by
  cases e with
  | attempt a left => exact ⟨_, .giveUp, hs.forgoAll _⟩
  | plain l => exact ⟨_, .rawEnd, hs⟩

end Errand

/-! ## All actions -/

theorem unlock_shifts {g : Handle} {who : Releaser} {x : Mutex} {s : ReleaseStage} (hm : m.Wf)
    (hx : (m.lock g.lock).mutex.release? me = some x) (hs : s = .notify ∨ s = .probe) :
    Shifts me m (.releasing g who .unlock)
      (.moveTo (m.setMutex g.lock x) (.releasing g who s)) := by
  refine ⟨_, ?_, hm.release hx⟩
  simp only [Step.moveTo, Phase.deals, reduceCtorEq, if_false]
  exact .unlock (hm.held_of_release? hx) hs

theorem refuse_shifts {g : Handle} {who : Releaser} (hm : m.Wf)
    (hx : (m.lock g.lock).mutex.release? me = none) (hi : st.phase = .idle)
    (hs : st.memory = m.forgo g.table) : Shifts me m (.releasing g who .unlock) st := by
  refine ⟨_, ?_, hs ▸ hm.shows.forgo⟩
  simp only [Phase.deals, hi, if_true]
  exact .refuse (Memory.held_of_release?_none hx)

/-- **Every action is a shift.** -/
theorem Phase.next_shifts (hm : m.Wf) (h : p.next me now m = some st) : Shifts me m p st := by
  have htake {l : LockId} {x : Mutex} (hx : (m.lock l).mutex.take? me = some x) :
      (m.setMutex l x).Shows (m.holdings.add l me) := hm.take hx ⟨.take? hx, fun _ => rfl⟩
  cases next_acts h with
  -- Acquisitions.
  | found hl | foundLate hl => exact ⟨_, .find rfl hl, hm.shows⟩
  | create hl => exact ⟨_, .create rfl rfl hl, hm.addEntry _⟩
  | take _ hx => exact ⟨_, .take (.inl rfl) (Memory.freeFor_of_take? hx), htake hx⟩
  | miss _ hx =>
    obtain ⟨o, ho, hh⟩ := hm.held_of_take?_none hx
    exact ⟨_, .miss ho hh, hm.shows⟩
  | queueFull | spent => exact ⟨_, .giveUp, hm.shows.forgoAll _⟩
  | room | spend | pass => exact ⟨_, .stay, hm.shows⟩
  | shut hc => exact ⟨_, .shut hc, hm.shows⟩
  | grant hc ht => exact ⟨_, .grant ht hc, hm.shows⟩
  | live _ ht => exact ⟨_, .live ht, hm.shows⟩
  | backOut _ hx | backOutLast _ hx =>
    exact ⟨_, .backOut (hm.held_of_release? hx), hm.release hx⟩
  | backOutFails _ hx => exact ⟨_, .backOutFails (Memory.held_of_release?_none hx), hm.shows⟩
  | backedOut => exact ⟨_, .backedOut, hm.shows.notifyAll⟩
  | discard ht => exact ⟨_, .discard ht, hm.removeEntry⟩
  | closed ht => exact ⟨_, .closed ht, hm.shows⟩
  -- Checks and waits.
  | check =>
    exact Errand.shifts_on (Errand.stake_checking ..) (Errand.stake_checking ..) rfl hm.shows
  | listTables =>
    exact Errand.shifts_on (Errand.stake_checking ..) (Errand.stake_checking ..) rfl
      (hm.shows.retainAll _)
  | listed =>
    exact Errand.shifts_on (Errand.stake_checking ..) (Errand.stake_checking ..) rfl
      (hm.shows.forgoAll _)
  | cycle => exact Errand.shifts_quit (Errand.stake_checking ..) rfl rfl (hm.shows.forgoAll _)
  | clear => exact ⟨_, .rawEnd, hm.shows⟩
  | acquire _ hx => exact Errand.acquired_shifts hm hx ⟨.take? hx, fun _ => rfl⟩
  | grab _ _ hx => exact Errand.acquired_shifts hm hx ⟨.leave (.take? hx), fun _ => rfl⟩
  | enter => exact Errand.shifts_waiting (hm.shows.enqueue.setLatch _)
  | heed => exact Errand.interrupted_shifts (hm.shows.clearInterrupt.quit _)
  | drowse => exact Errand.shifts_waiting hm.shows
  | timeOut => exact Errand.timedOut_shifts (hm.shows.quit _)
  | sleep => exact Errand.shifts_waiting (hm.shows.sleep.setLatch _)
  | rise => exact Errand.shifts_waiting (hm.shows.setLatch _)
  -- Releases.
  | refuse _ hx | refuseGuard _ hx => exact refuse_shifts hm hx rfl rfl
  | unlock _ hx => exact unlock_shifts hm hx (.inr rfl)
  | unlockLast _ hx => exact unlock_shifts hm hx (.inl rfl)
  | notify => exact ⟨_, .notify, hm.shows.notifyAll⟩
  | probe _ hx => exact ⟨_, .probe (Memory.freeFor_of_take? hx), htake hx⟩
  | yield _ hx =>
    obtain ⟨o, ho, hh⟩ := hm.held_of_take?_none hx
    exact ⟨_, .yield ho hh, hm.shows.forgo⟩
  | alone _ h1 => exact ⟨_, .alone h1, hm.shows⟩
  | inUse _ h1 => exact ⟨_, .inUse h1, hm.shows⟩
  | close => exact ⟨_, .close, hm.close⟩
  | remove | replaced => exact ⟨_, .remove, hm.removeEntry⟩
  | unprobe _ hx =>
    exact ⟨_, .unprobe (hm.held_of_release? hx) (.inl rfl), (hm.release hx).forgo⟩
  | unprobeLast _ hx => exact ⟨_, .unprobe (hm.held_of_release? hx) (.inr rfl), hm.release hx⟩
  | unprobeFails _ hx =>
    exact ⟨_, .unprobeFails (Memory.held_of_release?_none hx), hm.shows.forgo⟩
  | disposed => exact ⟨_, .disposed, hm.shows.notifyAll.forgo⟩
  -- Locks by themselves.
  | give _ hx => exact ⟨_, .rawRelease (hm.held_of_release? hx) (.inl rfl), hm.release hx⟩
  | giveLast _ hx => exact ⟨_, .rawRelease (hm.held_of_release? hx) (.inr rfl), hm.release hx⟩
  | tried _ hx => exact ⟨_, .rawTake (Memory.freeFor_of_take? hx), htake hx⟩
  | notHeld | notOwner | triedInVain => exact ⟨_, .rawEnd, hm.shows⟩
  | given | woken => exact ⟨_, .rawEnd, hm.shows.notifyAll⟩
  | closeRaw => exact ⟨_, .rawClose, hm.close⟩
  | makeLock => exact ⟨_, .rawMake, hm.addLock _⟩
  -- Everything else leaves the holdings alone.
  | seek => exact ⟨_, .rest, hm.shows.retainAll _⟩
  | inspected | forgo => exact ⟨_, .rest, hm.shows.forgo⟩
  | retain => exact ⟨_, .rest, hm.shows.retain⟩
  | wake => exact ⟨_, .rest, hm.shows.notifyAll⟩
  | makeTable | makeUnlimited => exact ⟨_, .rest, hm.shows.addTable _⟩
  | absent | raise | requested | listLocks | spot | passOver | cleared =>
    exact ⟨_, .rest, hm.shows⟩

end

end KeyedLocks
