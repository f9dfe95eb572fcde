import KeyedLocks.Proofs.Disposal

/-!
# The books of a session agree with its memory

`Session.Reachable.orderly`: in every session users can reach, the locks are orderly. What follows
for users: the holds of a thread on an identifier, granted and not given back, are holds on the lock
that the table registers for it, which is not closed (`entry_of_holds`).
-/

namespace KeyedLocks

namespace Session

variable {x y : Session} {t : ThreadId}

/-- The locks of a session are orderly. -/
def Orderly (x : Session) : Prop :=
  x.memory.Wf ∧ KeyedLocks.Orderly x.memory.holdings (fun t => (x.phase t).stake) x.deals

theorem Orderly.homed (h : x.Orderly) {g : Handle} (hg : x.issued g) :
    x.memory.holdings.Homed g.table g.lock := by
  obtain ⟨d, hd, hdg⟩ := List.any_eq_true.mp hg
  simp only [Bool.and_eq_true, decide_eq_true_eq] at hdg
  exact hdg.2 ▸ h.2.issued d hd

theorem Orderly.begin (h : x.Orderly) {c : Call} (hc : x.allows (.call t c)) (now : Nat) :
    (c.begin now x.memory).1.Shows x.memory.holdings ∧
      ((c.begin now x.memory).2.stake = .none ∨ ∃ g, x.memory.holdings.Homed g.table g.lock ∧
        (c.begin now x.memory).2.stake = .release g .unlock) := by
  have hm := h.1.shows
  cases c with
  | obtain => exact ⟨hm.retain, .inl rfl⟩
  | release g =>
    exact ⟨hm.retain, .inr ⟨g, h.homed (Bool.and_eq_true_iff.mp hc).1, rfl⟩⟩
  | dropGuard g => exact ⟨hm, .inr ⟨g, h.homed (Bool.and_eq_true_iff.mp hc).1, rfl⟩⟩
  | interrupt => exact ⟨hm, .inl rfl⟩
  | act a =>
    cases a with
    | clearInterrupt | makeTable | retain | forgo => exact ⟨hm, .inl rfl⟩
    | tryLock | wake | close | makeLock => cases hc
  | take | give | lockFor | unlock | checkDeadlock => cases hc

theorem Orderly.call (h : x.Orderly) {c : Call} (hc : x.allows (.call t c))
    (hy : x.move (.call t c) = some y) : y.Orderly := by
  obtain ⟨hi, rfl⟩ := of_move_call hy
  obtain ⟨⟨hw, hg⟩, hp⟩ := h.begin hc x.system.now
  refine ⟨hw, .grows ?_ hg⟩
  show KeyedLocks.Orderly _ (fun u => ((x.system.phases.set t _).get u).stake) _
  rw [System.phases_set]
  exact h.2.begin (congrArg Phase.stake hi) hp

theorem Orderly.act (h : x.Orderly) (hy : x.move (.act t) = some y) : y.Orderly := by
  obtain ⟨st, hst, rfl⟩ := of_move_act hy
  obtain ⟨H, hsh, hw, hg⟩ := Phase.next_shifts h.1 hst
  refine ⟨hw, .grows ?_ hg⟩
  show KeyedLocks.Orderly _ (fun u => ((x.system.phases.set t st.phase).get u).stake) _
  rw [System.phases_set]
  exact h.2.shift hsh rfl

theorem Orderly.rouse (h : x.Orderly) (hy : x.move (.rouse t) = some y) : y.Orderly := by
  obtain ⟨l, -, rfl⟩ := of_move_rouse hy
  obtain ⟨hw, hg⟩ := h.1.shows.rouse (l := l) (t := t)
  exact ⟨hw, h.2.grows hg⟩

/-- **Whatever users do, the locks are orderly.** -/
theorem Reachable.orderly (hx : x.Reachable) : x.Orderly := by
  induction hx with
  | start => exact ⟨fun _ => Mutex.wf_default, orderly_start⟩
  | @move x y m _ hm hy ih =>
    cases m with
    | call t c => exact ih.call hm hy
    | act t => exact ih.act hy
    | rouse t => exact ih.rouse hy
    | tick d => cases hy; exact ih

/-! ## Holds on identifiers -/

variable {table : TableId} {identifier : String} {l : LockId}

theorem Orderly.find?_eq_some_iff (h : x.Orderly) :
    (x.memory.table table).find? identifier = some l ↔
      (identifier, l) ∈ (x.memory.table table).entries := h.2.tidy.lookup_eq_some_iff

theorem holds_iff_net :
    x.Holds t table identifier ↔ 0 < net x.deals (·.concerns t table identifier) := by
  simp only [Holds, obtains, releases, net]
  omega

/-- The holds on a registered identifier are those on its lock. -/
theorem Orderly.holds_iff (h : x.Orderly) (hl : (identifier, l) ∈ (x.memory.table table).entries) :
    x.Holds t table identifier ↔ 0 < outstanding x.deals t l := by
  rw [holds_iff_net, h.2.entry hl t]

theorem Orderly.entry_of_holds (h : x.Orderly) (ht : x.Holds t table identifier) :
    ∃ l, (identifier, l) ∈ (x.memory.table table).entries := by
  rcases hi : (x.memory.table table).entries.lookup identifier with _ | l
  · rw [holds_iff_net, h.2.absent hi t] at ht
    exact absurd ht (Int.lt_irrefl 0)
  · exact ⟨l, mem_of_lookup hi⟩

theorem Orderly.held_of_outstanding (h : x.Orderly) (ho : 0 < outstanding x.deals t l) :
    0 < x.memory.holdings.held l t := by
  have := h.2.account l t
  omega

end Session

end KeyedLocks
