import KeyedLocks.Proofs.Bench
import KeyedLocks.Proofs.Edits

/-!
# The tables that are seen

Deadlock checks and interrupts look at `Memory.liveTables`. `Bench.Visible` says which tables these
are: those that some object in a slot or some thread at work refers to (`Bench.Refers`), each once,
and so the table of every acquisition is among them. It holds of all that users of factories play
(`Bench.Plays.visible`).
-/

namespace KeyedLocks

namespace Memory

theorem liveCount_eq (m : Memory) : m.liveCount = m.liveTables.length :=
  List.countP_eq_length_filter

theorem Listed.nodup_liveTables {m : Memory} (h : m.Listed) : m.liveTables.Nodup := h.nodup.filter _

end Memory

namespace Session

variable {x : Session} {t : ThreadId} {table : TableId}

theorem Referenced.mem_liveTables_iff (h : x.Referenced) :
    table ∈ x.memory.liveTables ↔ table ∈ x.names ∨ ∃ t, table ∈ (x.phase t).refs := by
  constructor
  · intro hl
    have hpos := Memory.isAlive_iff.mp (Memory.mem_liveTables.mp hl).2
    rw [h.count] at hpos
    by_cases hn : table ∈ x.names
    · exact .inl hn
    · rw [List.count_eq_zero.mpr hn, Nat.zero_add] at hpos
      obtain ⟨t, -, ht⟩ := Finset.sum_pos_iff.mp hpos
      exact .inr ⟨t, List.count_pos_iff.mp ht⟩
  · rintro (hn | ⟨t, ht⟩)
    · have ha := h.isAlive_of_name hn
      exact Memory.mem_liveTables.mpr ⟨h.tracked table ha, ha⟩
    · exact h.mem_liveTables ht

/-- The table of an acquisition is seen, and its lock in it unless it was disposed of. -/
theorem Reachable.seen (hx : x.Reachable) {a : Attempt} (ha : (x.phase t).attempt? = some a) :
    ∃ table ∈ x.memory.liveTables, a.table = some table ∧
      ((x.memory.lock a.lock).closed = false → a.lock ∈ (x.memory.table table).locks) := by
  obtain ⟨table, ht, hh⟩ := hx.homed ha
  refine ⟨table, hx.referenced.mem_liveTables (mem_refs_of_attempt? ha ht), ht, fun hc => ?_⟩
  exact List.mem_map_of_mem (f := (·.2)) (hh.kept hc)

end Session

namespace Scenario

namespace Bench

/-- A factory, a handle, a guard or a running operation refers to the table. -/
def Refers (b : Bench) (table : TableId) : Prop :=
  (∃ e ∈ b.slots, e.2.table? = some table) ∨ ∃ t, table ∈ (b.system.phase t).refs

/-- What deadlock checks and interrupts see is what there are references to. -/
structure Visible (b : Bench) : Prop where
  nodup : b.memory.liveTables.Nodup
  mem : ∀ table, table ∈ b.memory.liveTables ↔ table < b.memory.tables.fresh ∧ b.Refers table
  count : b.command .liveFactories = (b, .answer (.number b.memory.liveTables.length))
  acquired : ∀ t a, (b.system.phase t).attempt? = some a → ∃ table ∈ b.memory.liveTables,
    a.table = some table ∧
      ((b.memory.lock a.lock).closed = false → a.lock ∈ (b.memory.table table).locks)

theorem Backs.mem_liveTables_iff {x : Session} {b : Bench} (h : Backs x b) {table : TableId} :
    table ∈ b.memory.liveTables ↔ b.Refers table := by
  rw [Refers, memory, h.system, h.reachable.referenced.mem_liveTables_iff, h.mem_names, tables]
  simp only [List.mem_filterMap, Session.phase]

theorem Backs.all_seen {x : Session} {b : Bench} (h : Backs x b) : b.Visible where
  nodup := by
    rw [memory, h.system]
    exact h.reachable.reached.listed.nodup_liveTables
  mem table := by
    rw [← h.mem_liveTables_iff]
    refine ⟨fun hl => ⟨?_, hl⟩, And.right⟩
    exact Memory.lt_fresh_of_isAlive (Memory.mem_liveTables.mp hl).2
  count := by rw [← Memory.liveCount_eq]; rfl
  acquired t a ha := by
    rw [h.system] at ha
    rw [memory, h.system]
    exact h.reachable.seen ha

/-- **A factory is visible as long as anything refers to it.** -/
theorem Plays.visible {workers : Nat} {b : Bench} (h : Plays { workers } b) : b.Visible := by
  obtain ⟨x, hx⟩ := h.backs
  exact hx.all_seen

/-- Worker 1 waits for worker 0, and both factories are dropped meanwhile: the one they work on is
still seen. -/
theorem visible_dropped : ∃ b, Plays { workers := 2 } b ∧
    (b.find? (.factory "f") = none ∧ b.find? (.factory "g") = none ∧
      b.system.asleepOn 1 = some 0 ∧ b.memory.liveTables = [0] ∧ b.memory.tables.fresh = 2) ∧
    b.Visible := by
  obtain ⟨b, hb, hp⟩ := exists_of_play (b := { workers := 2 })
    (.deed 1 (.command (.factory "f" .unlimited)) :: .act 2 ::
      .deed 2 (.command (.factory "g" .unlimited)) :: .act 2 ::
      .deed 3 (.task 0 (.obtain "f" "k" "h")) :: List.replicate 4 (.act 0) ++
      .deed 4 (.task 1 (.obtain "f" "k" "h")) :: List.replicate 18 (.act 1) ++
      [.deed 5 (.command (.dropFactory "f")), .act 2,
        .deed 6 (.command (.dropFactory "g")), .act 2])
    (p := fun b => b.find? (.factory "f") = none ∧ b.find? (.factory "g") = none ∧
      b.system.asleepOn 1 = some 0 ∧ b.memory.liveTables = [0] ∧ b.memory.tables.fresh = 2)
    (by decide +kernel)
  exact ⟨b, hb, hp, hb.visible⟩

end Bench

end Scenario

end KeyedLocks
