import KeyedLocks.Proofs.Policies
import KeyedLocks.Proofs.Pursuit

/-!
# What attempts are for

A thread comes to an attempt when it finds the lock in a table or puts it there
(`Phase.Path.attempt?`). All who work on a lock do so for the table that registered it
(`Session.Belongs`), also when it is out of the table, and with the policy of that table
(`Session.Reachable.policy`): threads at the same lock have the same limits
(`Session.Reachable.policy_eq`).
-/

namespace KeyedLocks

theorem Shift.mem_entries {me : ThreadId} {H H' : Holdings} {p p' : Stake} {ds : List Deal}
    {table : TableId} {i : String} {l : LockId} (h : Shift me H p ds H' p') (ht : H.Tidy)
    (hl : l < H.fresh) (hm : (i, l) ∈ H'.entries table) : (i, l) ∈ H.entries table := by
  cases h with
  | create => exact (Holdings.mem_create.mp hm).resolve_right fun h => Nat.ne_of_lt hl h.2.2
  | discard | remove => exact (ht.mem_remove.mp hm).1
  | _ => exact hm

/-- A thread comes to an attempt when it has found its lock in a table, or has put it there. -/
theorem Phase.Path.attempt? {me : ThreadId} {m m' : Memory} {p p' : Phase} {a : Attempt}
    (h : p.Path me m m' p') (ha : p'.attempt? = some a) : p.attempt? = some a ∨
      ∃ table i, table ∈ p.refs ∧ a = .ofEntry m table a.lock ∧
        (i, a.lock) ∈ (m'.table table).entries := by
  cases h with
  | @found _ table i l hl hp =>
    cases ha
    refine .inr ⟨table, i, ?_, rfl, mem_of_lookup hl⟩
    rcases hp with rfl | rfl <;> exact List.mem_singleton_self _
  | @create table i hl =>
    cases ha
    refine .inr ⟨table, i, List.mem_singleton_self _, rfl, ?_⟩
    show (i, m.locks.fresh) ∈ (m.addEntry table i).holdings.entries table
    rw [Memory.holdings_addEntry]
    exact Holdings.mem_create.mpr (.inr ⟨rfl, rfl, rfl⟩)
  | absent | discard => cases ha
  | take hp =>
    cases ha
    rcases hp with rfl | ⟨left, d, s, rfl⟩ <;> exact .inl rfl
  | backOut hp => rcases hp with rfl | rfl <;> exact .inl ha
  | _ => exact .inl ha

namespace Session

variable {x y z : Session} {t u : ThreadId} {a b : Attempt} {table : TableId} {i : String}
  {l : LockId} {m : Move} {k : Nat}

theorem attempt?_of_move (hm : x.allows m) (hy : x.move m = some y)
    (ha : (y.phase t).attempt? = some a) : (x.phase t).attempt? = some a ∨
      ∃ table i, table ∈ (x.phase t).refs ∧ a = .ofEntry x.memory table a.lock ∧
        (i, a.lock) ∈ (y.memory.table table).entries := by
  rcases path_of_move hy (Phase.pursues_of_attempt? ha) with ⟨-, hpath⟩ | ⟨c, rfl, -, hc⟩ | ⟨-, he⟩
  · exact hpath.attempt? ha
  · rw [hc] at ha
    cases c with
    | take => cases hm
    | _ => cases ha
  · exact .inl (he ▸ ha)

theorem Reachable.mem_entries_of_move (hx : x.Reachable) (hy : x.move m = some y)
    (hl : l < x.memory.locks.fresh) (he : (i, l) ∈ (y.memory.table table).entries) :
    (i, l) ∈ (x.memory.table table).entries := by
  obtain ⟨H, ⟨-, hg⟩, hH⟩ := System.holdings_of_moved hx.reached (moved hy)
  have he : (i, l) ∈ y.memory.holdings.entries table := he
  rw [hg] at he
  rcases hH with rfl | ⟨u, p, ds, p', -, hsh⟩
  · exact he
  · exact hsh.mem_entries hx.orderly.2.tidy hl he

/-- The lock is no other table's, and all who work on it do so for this table. -/
structure Belongs (x : Session) (table : TableId) (l : LockId) : Prop where
  known : l < x.memory.locks.fresh
  sole : ∀ {table' i}, (i, l) ∈ (x.memory.table table').entries → table' = table
  attempts : ∀ {t a}, (x.phase t).attempt? = some a → a.lock = l → a.table = some table

theorem Reachable.belongs_of_entry (hx : x.Reachable)
    (hl : (i, l) ∈ (x.memory.table table).entries) : x.Belongs table l where
  known := hx.orderly.2.tidy.known hl
  sole hl' := hx.orderly.2.tidy.sole hl' hl
  attempts := by
    rintro t a ha rfl
    obtain ⟨table', ht, hh⟩ := hx.homed ha
    rw [ht, hh.sole hl]

theorem Belongs.move (h : x.Belongs table l) (hx : x.Reachable) (hm : x.allows m)
    (hy : x.move m = some y) : y.Belongs table l := by
  have hsole {table' : TableId} {i : String} (he : (i, l) ∈ (y.memory.table table').entries) :
      table' = table := h.sole (hx.mem_entries_of_move hy h.known he)
  refine ⟨(System.identifier_of_moved hx.reached (moved hy) h.known).2, hsole, ?_⟩
  rintro t a ha rfl
  rcases attempt?_of_move hm hy ha with ha | ⟨table', i, -, hof, he⟩
  · exact h.attempts ha rfl
  · rw [hof, ← hsole he]
    rfl

theorem Belongs.leads (h : x.Belongs table l) (hx : x.Reachable) (hy : Leads Allowed x y) :
    y.Reachable ∧ y.Belongs table l := by
  induction hy with
  | refl => exact ⟨hx, h⟩
  | move _ hm hz ih => exact ⟨.move ih.1 hm hz, ih.2.move ih.1 hm hz⟩

theorem Reachable.belongs (hx : x.Reachable) (ha : (x.phase t).attempt? = some a) :
    ∃ table, a.table = some table ∧ x.Belongs table a.lock := by
  induction hx with
  | start => cases ha
  | @move x y m hx hm hy ih =>
    rcases attempt?_of_move hm hy ha with ha | ⟨table, i, -, hof, he⟩
    · obtain ⟨table, ht, hb⟩ := ih ha
      exact ⟨table, ht, hb.move hx hm hy⟩
    · refine ⟨table, ?_, Reachable.belongs_of_entry (.move hx hm hy) he⟩
      rw [hof]
      rfl

theorem Reachable.policy_of_move (hx : x.Reachable) (hy : x.move m = some y)
    (ht : table ∈ (x.phase t).refs) : (y.memory.table table).policy =
      (x.memory.table table).policy := by
  have halive := (Memory.mem_liveTables.mp (hx.referenced.mem_liveTables ht)).2
  exact (System.upholds_of_moved (moved hy)).policy (Memory.lt_fresh_of_isAlive halive)

theorem mem_refs_of_attempt? {p : Phase} (ha : p.attempt? = some a) (ht : a.table = some table) :
    table ∈ p.refs := by
  have hmem : table ∈ a.table.toList := by
    rw [ht]
    exact List.mem_singleton_self _
  cases p with
  | checking e c =>
    cases e with
    | attempt =>
      cases ha
      cases c with
      | listLocks => exact List.mem_append_left _ hmem
      | _ => exact hmem
    | plain => cases ha
  | waiting e =>
    cases e with
    | attempt => cases ha; exact hmem
    | plain => cases ha
  | tryTake | readQueue | spend | readClosed | backOut | notifyBackOut | discard =>
    cases ha; exact hmem
  | _ => cases ha

theorem Reachable.policy (hx : x.Reachable) (ha : (x.phase t).attempt? = some a)
    (ht : a.table = some table) : a.policy = (x.memory.table table).policy := by
  induction hx with
  | start => cases ha
  | @move x y m hx hm hy ih =>
    rcases attempt?_of_move hm hy ha with ha | ⟨table', i, href, hof, -⟩
    · rw [Reachable.policy_of_move hx hy (mem_refs_of_attempt? ha ht)]
      exact ih ha
    · have htable : table' = table := by
        rw [hof] at ht
        exact Option.some.inj ht
      subst htable
      rw [Reachable.policy_of_move hx hy href, hof]
      rfl

theorem Reachable.policy_eq (hx : x.Reachable) (ha : (x.phase t).attempt? = some a)
    (hb : (x.phase u).attempt? = some b) (hl : a.lock = b.lock) : a.policy = b.policy := by
  obtain ⟨table, ht, hbelongs⟩ := hx.belongs hb
  rw [hx.policy ha (hbelongs.attempts ha hl), hx.policy hb ht]

end Session

end KeyedLocks
