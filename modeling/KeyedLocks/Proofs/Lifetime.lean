import Mathlib.Algebra.BigOperators.Group.Finset.Basic
import Mathlib.Algebra.Order.BigOperators.Group.Finset
import KeyedLocks.Proofs.References

/-!
# The lifetime of tables

The references to a table are those users have a name for and those threads have in their hands, one
for one (`Session.Referenced`). So a table that a thread works on is alive, and the registry lists
it (`Session.Referenced.mem_liveTables`).
-/

namespace KeyedLocks

theorem Arena.sum_set {α : Type} [Inhabited α] (a : Arena α) {f : α → Nat} (hf : f default = 0)
    (i : Nat) (v : α) :
    ∑ j ∈ Finset.range (a.set i v).fresh, f ((a.set i v).get j) + f (a.get i) =
      ∑ j ∈ Finset.range a.fresh, f (a.get j) + f v := by
  have hi : i ∈ Finset.range (a.set i v).fresh := by
    rw [fresh_set, Finset.mem_range]
    omega
  have hold : ∑ j ∈ Finset.range a.fresh, f (a.get j) =
      ∑ j ∈ Finset.range (a.set i v).fresh, f (a.get j) := by
    apply Finset.sum_subset
    · intro j hj
      rw [fresh_set, Finset.mem_range]
      rw [Finset.mem_range] at hj
      omega
    · intro j _ hj
      rw [Finset.mem_range, Nat.not_lt] at hj
      rw [get_of_fresh_le hj, hf]
  have hrest : ∑ j ∈ (Finset.range (a.set i v).fresh).erase i, f ((a.set i v).get j) =
      ∑ j ∈ (Finset.range (a.set i v).fresh).erase i, f (a.get j) := by
    apply Finset.sum_congr rfl
    intro j hj
    rw [get_set_ne _ _ (Finset.ne_of_mem_erase hj)]
  rw [hold, ← Finset.add_sum_erase _ _ hi, ← Finset.add_sum_erase _ (fun j => f (a.get j)) hi,
    hrest, get_set_self]
  omega

/-- The references to a table that threads have in their hands. -/
def refsIn (phases : Arena Phase) (t : TableId) : Nat :=
  ∑ u ∈ Finset.range phases.fresh, (phases.get u).refs.count t

theorem refsIn_set (phases : Arena Phase) (u : ThreadId) (p : Phase) (t : TableId) :
    refsIn (phases.set u p) t + (phases.get u).refs.count t = refsIn phases t + p.refs.count t :=
  phases.sum_set (f := fun p => p.refs.count t) rfl u p

theorem count_refs_le (phases : Arena Phase) (u : ThreadId) (t : TableId) :
    (phases.get u).refs.count t ≤ refsIn phases t := by
  rcases Nat.lt_or_ge u phases.fresh with hu | hu
  · exact Finset.single_le_sum (f := fun u => (phases.get u).refs.count t)
      (fun _ _ => Nat.zero_le _) (Finset.mem_range.mpr hu)
  · have hd : phases.get u = .idle := Arena.get_of_fresh_le hu
    rw [hd]
    exact Nat.zero_le _

theorem Call.begin_references (c : Call) (now : Nat) (m : Memory) (t : TableId) :
    (c.begin now m).1.references t + c.spends.toList.count t =
      m.references t + (c.begin now m).2.refs.count t := by
  cases c with
  | obtain table => exact Memory.references_retainAll m [table] t
  | release h => exact Memory.references_retainAll m [h.table] t
  | act a => cases a <;> rfl
  | dropGuard | take | give | lockFor | unlock | checkDeadlock | interrupt => rfl

namespace Session

variable {x y : Session} {t : ThreadId} {table : TableId}

/-- Every reference to a table is a name of a user or in the hands of a thread. -/
structure Referenced (x : Session) : Prop where
  count : ∀ table, x.memory.references table = x.names.count table + refsIn x.system.phases table
  tracked : x.memory.Tracked

namespace Referenced

theorem isAlive_of_name (h : x.Referenced) (ht : table ∈ x.names) : x.memory.isAlive table := by
  have hpos : 0 < x.names.count table := List.count_pos_iff.mpr ht
  rw [Memory.isAlive_iff, h.count]
  omega

theorem mem_liveTables (h : x.Referenced) (ht : table ∈ (x.phase t).refs) :
    table ∈ x.memory.liveTables := by
  have ha : x.memory.isAlive table := by
    have hpos : 0 < (x.phase t).refs.count table := List.count_pos_iff.mpr ht
    have hle : (x.phase t).refs.count table ≤ refsIn x.system.phases table :=
      count_refs_le x.system.phases t table
    rw [Memory.isAlive_iff, h.count]
    omega
  exact Memory.mem_liveTables.mpr ⟨h.tracked table ha, ha⟩

theorem spends_mem {c : Call} (hc : x.allows (.call t c)) (ht : c.spends = some table) :
    table ∈ x.names := by
  cases c with
  | dropGuard g =>
    cases ht
    exact of_decide_eq_true (Bool.and_eq_true_iff.mp hc).2
  | act a =>
    cases a with
    | forgo => cases ht; exact of_decide_eq_true hc
    | _ => cases ht
  | _ => cases ht

theorem begin_tracked (h : x.Referenced) {c : Call} (hc : x.allows (.call t c)) (now : Nat) :
    (c.begin now x.memory).1.Tracked := by
  have hretain {table : TableId} (ht : table ∈ x.names) : (x.memory.retain table).Tracked := by
    apply h.tracked.retainAll [table]
    intro j hj
    rw [List.mem_singleton.mp hj]
    exact h.isAlive_of_name ht
  cases c with
  | obtain table => exact hretain (of_decide_eq_true hc)
  | release g => exact hretain (of_decide_eq_true (Bool.and_eq_true_iff.mp hc).2)
  | dropGuard | take | give | lockFor | unlock | checkDeadlock | interrupt | act => exact h.tracked

theorem call (h : x.Referenced) {c : Call} (hc : x.allows (.call t c))
    (hy : x.move (.call t c) = some y) : y.Referenced := by
  obtain ⟨hi, rfl⟩ := of_move_call hy
  refine ⟨?_, h.begin_tracked hc _⟩
  intro table
  have hb := c.begin_references x.system.now x.memory table
  have hset : _ + (x.phase t).refs.count table = _ :=
    refsIn_set x.system.phases t (c.begin x.system.now x.memory).2 table
  have hidle : (x.phase t).refs.count table = 0 := by rw [hi]; rfl
  have hn : (c.spends.elim x.names x.names.erase).count table + c.spends.toList.count table =
      x.names.count table := by
    rcases hsp : c.spends with _ | j
    · rfl
    · show (x.names.erase j).count table + [j].count table = _
      rw [List.count_singleton, List.count_erase]
      split
      · next hj =>
        have hpos := List.count_pos_iff.mpr (spends_mem hc hsp)
        rw [beq_iff_eq] at hj
        subst hj
        omega
      · rfl
  have hcount := h.count table
  show (c.begin x.system.now x.memory).1.references table =
    (c.spends.elim x.names x.names.erase).count table +
      refsIn (x.system.phases.set t (c.begin x.system.now x.memory).2) table
  omega

theorem act (h : x.Referenced) (ha : x.allows (.act t)) (hy : x.move (.act t) = some y) :
    y.Referenced := by
  obtain ⟨st, hst, rfl⟩ := of_move_act hy
  have hle (table : TableId) : (x.phase t).refs.count table ≤ x.memory.references table := by
    have hin : (x.phase t).refs.count table ≤ refsIn x.system.phases table :=
      count_refs_le x.system.phases t table
    rw [h.count]
    omega
  have hretain (table : TableId) (hp : x.phase t = .acting (.retain table)) :
      x.memory.isAlive table := by
    simp only [allows, hp, decide_eq_true_eq] at ha
    exact h.isAlive_of_name ha
  obtain ⟨hb, htr⟩ := Phase.next_balances hle hretain hst
  refine ⟨?_, htr h.tracked⟩
  intro table
  have hb := hb table
  have hset : _ + (x.phase t).refs.count table = _ :=
    refsIn_set x.system.phases t st.phase table
  have hcount := h.count table
  rw [List.count_append] at hb
  show st.memory.references table = ((x.phase t).gains st.notes ++ x.names).count table +
    refsIn (x.system.phases.set t st.phase) table
  rw [List.count_append]
  omega

theorem rouse (h : x.Referenced) (hy : x.move (.rouse t) = some y) : y.Referenced := by
  obtain ⟨l, -, rfl⟩ := of_move_rouse hy
  exact ⟨h.count, h.tracked⟩

end Referenced

/-- **No reference is lost, and none is made up.** -/
theorem Reachable.referenced (hx : x.Reachable) : x.Referenced := by
  induction hx with
  | start => exact ⟨fun _ => rfl, fun _ ht => absurd ht Bool.false_ne_true⟩
  | @move x y m _ hm hy ih =>
    cases m with
    | call t c => exact ih.call hm hy
    | act t => exact ih.act hm hy
    | rouse t => exact ih.rouse hy
    | tick d => cases hy; exact ⟨ih.count, ih.tracked⟩

end Session

end KeyedLocks
