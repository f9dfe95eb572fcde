import KeyedLocks.Proofs.Registration
import KeyedLocks.Registry

/-!
# The registry lists what lives

A `Chronicle` tells what steps on an inventory come to, without counting references and without
taking anything out: the values that were made, what became of each name, and every registration.
In it an instance lives as long as a name stands for it (`Chronicle.lives`).

`Agrees v c` ties an inventory to its chronicle: the names stand for the same instances, each
instance has as many references as there are names for it, and of the registrations the registry
lists those that live. Every step keeps that (`Agrees.step`), so it holds after every run
(`registry_exact`).
-/

namespace KeyedLocks

namespace Registry

variable {α : Type} {r : Registry α} {p q : α → Bool} {as : List α} {a : α}

/-- To look for fewer among those found is to look for fewer among all. -/
theorem filter_filter_of_imp {as : List α} (h : ∀ a ∈ as, q a → p a) :
    (as.filter p).filter q = as.filter q := by
  rw [List.filter_filter]
  refine List.filter_congr fun a ha => ?_
  cases hq : q a with
  | false => rfl
  | true => rw [h a ha hq]; rfl

/-- A registry that lists the living among `as` still does when some of them are dead. -/
theorem live_of_imp (h : r.live p = as.filter p) (ht : ∀ a ∈ r.tracked, q a → p a)
    (ha : ∀ a ∈ as, q a → p a) : r.live q = as.filter q := by
  rw [live, ← filter_filter_of_imp ht, ← filter_filter_of_imp ha]
  exact congrArg _ h

/-- With a registration the dead go, and the living stay. -/
theorem tracked_register (h : r.live p = as.filter p) (ha : p a) :
    (r.register p a).tracked = (as ++ [a]).filter p := by
  show r.live p ++ [a] = _
  rw [h, List.filter_append, List.filter_singleton, ha]
  rfl

theorem live_register (h : r.live p = as.filter p) (ha : p a) :
    (r.register p a).live p = (as ++ [a]).filter p := by
  rw [live, tracked_register h ha, List.filter_filter]
  exact List.filter_congr fun a _ => Bool.and_self _

theorem liveCount_eq (r : Registry α) (p : α → Bool) : r.liveCount p = (r.live p).length :=
  List.countP_eq_length_filter

theorem liveCount_le (r : Registry α) (p : α → Bool) : r.liveCount p ≤ r.tracked.length :=
  List.countP_le_length

end Registry

namespace Inventory

/-! ## Chronicles -/

/-- What steps come to. -/
structure Chronicle where
  /-- The value of each instance, in the order in which they were made. -/
  made : List Int := []
  /-- What names were given to, or that they were given up, latest first. -/
  bindings : List (String × Option Nat) := []
  /-- The instance of each registration, in order. -/
  registered : List Nat := []
deriving Repr, DecidableEq

namespace Chronicle

/-- The instance a name stands for now. -/
def refers (c : Chronicle) (name : String) : Option Nat := (c.bindings.lookup name).join

/-- Some name stands for the instance. -/
def lives (c : Chronicle) (i : Nat) : Bool := c.bindings.any fun b => c.refers b.1 = some i

def value (c : Chronicle) (i : Nat) : Int := c.made[i]?.getD 0

def bind (c : Chronicle) (name : String) (o : Option Nat) : Chronicle :=
  { c with bindings := (name, o) :: c.bindings }

def add (c : Chronicle) : Step → Chronicle
  | .make name value => { c.bind name (some c.made.length) with made := c.made ++ [value] }
  | .register name => { c with registered := c.registered ++ (c.refers name).toList }
  | .clone name other =>
    match c.refers name with
    | none => c
    | some i => c.bind other (some i)
  | .drop name => c.bind name none

/-- The chronicle of steps from the start. -/
def of (steps : List Step) : Chronicle := steps.foldl add {}

variable {c : Chronicle} {name other : String} {i : Nat}

theorem refers_bind (c : Chronicle) (name other : String) (o : Option Nat) :
    (c.bind name o).refers other = if other = name then o else c.refers other := by
  unfold refers bind
  rw [List.lookup_cons]
  by_cases h : other = name
  · rw [if_pos h, h, beq_self_eq_true]
    rfl
  · rw [if_neg h, beq_false_of_ne h]

theorem lives_iff : c.lives i ↔ ∃ name, c.refers name = some i := by
  unfold lives
  rw [List.any_eq_true]
  constructor
  · rintro ⟨b, -, hb⟩
    exact ⟨b.1, of_decide_eq_true hb⟩
  · rintro ⟨name, h⟩
    have hl : c.bindings.lookup name = some (some i) := Option.join_eq_some_iff.mp h
    exact ⟨_, mem_of_lookup hl, decide_eq_true h⟩

end Chronicle

/-! ## References -/

section
variable {v : Inventory} {name other : String} {i j : Nat}

theorem referencesOf_retain (hi : i < v.instances.length) (j : Nat) :
    (v.retain i).referencesOf j = v.referencesOf j + if i = j then 1 else 0 := by
  unfold referencesOf retain
  rw [List.getElem?_modify]
  split
  · next h =>
    subst h
    rw [List.getElem?_eq_getElem hi]
    rfl
  · cases v.instances[j]? <;> rfl

theorem referencesOf_release (v : Inventory) (i j : Nat) :
    (v.release i).referencesOf j = v.referencesOf j - if i = j then 1 else 0 := by
  unfold referencesOf release
  rw [List.getElem?_modify]
  split <;> cases v.instances[j]? <;> rfl

theorem referencesOf_push (v : Inventory) (value : Int) (j : Nat) :
    referencesOf { v with instances := v.instances ++ [{ value, references := 1 }] } j =
      v.referencesOf j + if v.instances.length = j then 1 else 0 := by
  unfold referencesOf
  dsimp only
  rw [List.getElem?_append]
  split
  · next hlt => rw [if_neg (Nat.ne_of_gt hlt), Nat.add_zero]
  · next hge =>
    rw [List.getElem?_eq_none (Nat.le_of_not_lt hge), List.getElem?_singleton]
    by_cases hj : v.instances.length = j
    · rw [if_pos hj, if_pos (by omega)]
      rfl
    · rw [if_neg hj, if_neg (by omega)]
      rfl

theorem lt_of_referencesOf (h : v.referencesOf i ≠ 0) : i < v.instances.length := by
  by_contra hn
  rw [referencesOf, List.getElem?_eq_none (Nat.le_of_not_lt hn)] at h
  exact h rfl

theorem lt_of_alive (h : v.alive i) : i < v.instances.length :=
  lt_of_referencesOf (bne_iff_ne.mp h)

theorem map_value_modify (l : List Instance) (i : Nat) {f : Instance → Instance}
    (hf : ∀ x, (f x).value = x.value) : (l.modify i f).map (·.value) = l.map (·.value) := by
  refine List.ext_getElem? fun j => ?_
  rw [List.getElem?_map, List.getElem?_map, List.getElem?_modify]
  cases l[j]? with
  | none => rfl
  | some x =>
    split
    · exact congrArg some (hf x)
    · rfl

/-- The number of names that stand for an instance. -/
def namesOf (v : Inventory) (i : Nat) : Nat := (v.names.map (·.2)).count i

/-- Each instance has a reference for each of its names, and so many more. -/
def Balanced (v : Inventory) (more : Nat → Nat) : Prop :=
  ∀ i, v.referencesOf i = v.namesOf i + more i

theorem Balanced.more {w : Inventory} (h : v.Balanced fun _ => 0) (hn : w.names = v.names)
    (hr : ∀ j, w.referencesOf j = v.referencesOf j + if i = j then 1 else 0) :
    w.Balanced fun j => if i = j then 1 else 0 := by
  intro j
  rw [hr, h j, namesOf, namesOf, hn]
  rfl

theorem namesOf_pos_iff (hn : (v.names.map (·.1)).Nodup) :
    0 < v.namesOf i ↔ ∃ name, v.find? name = some i := by
  rw [namesOf, List.count_pos_iff, List.mem_map]
  constructor
  · rintro ⟨e, he, rfl⟩
    exact ⟨e.1, lookup_of_mem hn he⟩
  · rintro ⟨name, h⟩
    exact ⟨_, mem_of_lookup h, rfl⟩

theorem count_filter {names : List (String × Nat)} (hn : (names.map (·.1)).Nodup)
    (h : names.lookup name = some i) (j : Nat) :
    (names.map (·.2)).count j =
      ((names.filter (·.1 ≠ name)).map (·.2)).count j + if i = j then 1 else 0 := by
  induction names with
  | nil => cases h
  | cons e names ih =>
    rw [List.map_cons, List.nodup_cons] at hn
    by_cases he : e.1 = name
    · have hgone : names.filter (·.1 ≠ name) = names := by
        refine List.filter_eq_self.mpr fun x hx => decide_eq_true fun hxn => hn.1 ?_
        rw [he, ← hxn]
        exact List.mem_map_of_mem hx
      obtain rfl : e.2 = i := by
        rw [List.lookup_cons, he, beq_self_eq_true] at h
        exact Option.some.inj h
      rw [List.filter_cons_of_neg (by simpa using he), hgone, List.map_cons, List.count_cons]
      simp only [beq_iff_eq]
    · rw [List.lookup_cons, beq_false_of_ne (Ne.symm he)] at h
      rw [List.filter_cons_of_pos (by simpa using he), List.map_cons, List.map_cons,
        List.count_cons, List.count_cons, ih hn.2 h]
      omega

/-! ## Names that are given up and given away -/

theorem find?_drop (v : Inventory) (name other : String) :
    (v.drop name).find? other = if other = name then none else v.find? other := by
  unfold drop
  split
  · next h =>
    split
    · next ho => rw [ho, h]
    · rfl
  · exact lookup_filter ..

theorem nodup_drop (hn : (v.names.map (·.1)).Nodup) (name : String) :
    ((v.drop name).names.map (·.1)).Nodup := by
  unfold drop
  split
  · exact hn
  · exact hn.sublist (List.filter_sublist.map _)

theorem Balanced.drop {more : Nat → Nat} (h : v.Balanced more) (hn : (v.names.map (·.1)).Nodup)
    (name : String) : (v.drop name).Balanced more := by
  unfold Inventory.drop
  split
  · exact h
  · next i hi =>
    intro j
    have hr : (v.release i).referencesOf j = v.referencesOf j - if i = j then 1 else 0 :=
      referencesOf_release v i j
    have hc := count_filter hn hi j
    have hj := h j
    unfold namesOf at hj ⊢
    show (v.release i).referencesOf j = _
    dsimp only at hc ⊢
    omega

theorem find?_bind (v : Inventory) (name other : String) (i : Nat) :
    (v.bind name i).find? other = if other = name then some i else v.find? other := by
  show ((name, i) :: (v.drop name).names).lookup other = _
  rw [List.lookup_cons]
  by_cases h : other = name
  · rw [if_pos h, h, beq_self_eq_true]
  · rw [if_neg h, beq_false_of_ne h]
    exact (find?_drop v name other).trans (if_neg h)

theorem nodup_bind (hn : (v.names.map (·.1)).Nodup) (name : String) (i : Nat) :
    ((v.bind name i).names.map (·.1)).Nodup := by
  show (name :: (v.drop name).names.map (·.1)).Nodup
  refine List.nodup_cons.mpr ⟨fun hm => ?_, nodup_drop hn name⟩
  obtain ⟨e, he, rfl⟩ := List.mem_map.mp hm
  have hl : (v.drop e.1).find? e.1 = some e.2 := lookup_of_mem (nodup_drop hn e.1) he
  rw [find?_drop, if_pos rfl] at hl
  cases hl

/-- A reference that no name stands for finds its name. -/
theorem Balanced.bind (h : v.Balanced fun j => if i = j then 1 else 0)
    (hn : (v.names.map (·.1)).Nodup) (name : String) : (v.bind name i).Balanced fun _ => 0 := by
  intro j
  have hj : (v.drop name).referencesOf j = _ := h.drop hn name j
  show (v.drop name).referencesOf j = ((name, i) :: (v.drop name).names |>.map (·.2)).count j + 0
  rw [hj, List.map_cons, List.count_cons, namesOf]
  simp only [beq_iff_eq, Nat.add_zero]

theorem values_drop (v : Inventory) (name : String) :
    (v.drop name).instances.map (·.value) = v.instances.map (·.value) := by
  unfold drop
  split
  · rfl
  · next i _ => exact map_value_modify v.instances i fun _ => rfl

theorem values_bind (v : Inventory) (name : String) (i : Nat) :
    (v.bind name i).instances.map (·.value) = v.instances.map (·.value) := v.values_drop name

theorem registry_drop (v : Inventory) (name : String) : (v.drop name).registry = v.registry := by
  unfold drop
  split <;> rfl

end

/-! ## Inventories and their chronicles -/

/-- The inventory is what the chronicle says. -/
structure Agrees (v : Inventory) (c : Chronicle) : Prop where
  nodup : (v.names.map (·.1)).Nodup
  find? : ∀ name, v.find? name = c.refers name
  balanced : v.Balanced fun _ => 0
  values : v.instances.map (·.value) = c.made
  tracked_lt : ∀ i ∈ v.registry.tracked, i < v.instances.length
  registered_lt : ∀ i ∈ c.registered, i < v.instances.length
  live : v.registry.live v.alive = c.registered.filter v.alive

namespace Agrees

variable {v v' : Inventory} {c c' : Chronicle} {name : String} {i : Nat}

theorem start : Agrees {} {} where
  nodup := List.nodup_nil
  find? _ := rfl
  balanced _ := rfl
  values := rfl
  tracked_lt := nofun
  registered_lt := nofun
  live := rfl

theorem alive_eq (hn : (v.names.map (·.1)).Nodup) (hf : ∀ name, v.find? name = c.refers name)
    (hb : v.Balanced fun _ => 0) : v.alive = c.lives := by
  funext i
  rw [Bool.eq_iff_iff, Chronicle.lives_iff]
  show (v.referencesOf i != 0) = true ↔ _
  rw [bne_iff_ne, hb i, Nat.add_zero, ← Nat.pos_iff_ne_zero, namesOf_pos_iff hn]
  exact exists_congr fun name => by rw [hf]

theorem alive (h : Agrees v c) : v.alive = c.lives := alive_eq h.nodup h.find? h.balanced

theorem lt_of_refers (h : Agrees v c) (hi : c.refers name = some i) : i < v.instances.length := by
  apply lt_of_alive
  rw [h.alive, Chronicle.lives_iff]
  exact ⟨name, hi⟩

theorem length (h : Agrees v c) : v.instances.length = c.made.length := by
  rw [← h.values, List.length_map]

/-- Names change hands, and none of the instances there were comes back to life. -/
theorem rename (h : Agrees v c) (hn : (v'.names.map (·.1)).Nodup)
    (hf : ∀ name, v'.find? name = c'.refers name) (hb : v'.Balanced fun _ => 0)
    (hv : v'.instances.map (·.value) = c'.made) (hr : v'.registry = v.registry)
    (hc : c'.registered = c.registered) (hm : c.made.length ≤ c'.made.length)
    (hl : ∀ i < c.made.length, c'.lives i → c.lives i) : Agrees v' c' where
  nodup := hn
  find? := hf
  balanced := hb
  values := hv
  tracked_lt i hi := by
    rw [hr] at hi
    have hlt := h.tracked_lt i hi
    rw [h.length] at hlt
    rw [← List.length_map, hv]
    omega
  registered_lt i hi := by
    rw [hc] at hi
    have hlt := h.registered_lt i hi
    rw [h.length] at hlt
    rw [← List.length_map, hv]
    omega
  live := by
    have hlive : v.registry.live c.lives = c.registered.filter c.lives := h.alive ▸ h.live
    rw [alive_eq hn hf hb, hr, hc]
    refine Registry.live_of_imp hlive (fun i hi => hl i ?_) fun i hi => hl i ?_
    · exact h.length ▸ h.tracked_lt i hi
    · exact h.length ▸ h.registered_lt i hi

/-- A name is given one reference more to an instance that is new or lives. -/
theorem bind (h : Agrees v c) {w : Inventory} {new : List Int} (hn : w.names = v.names)
    (hg : w.registry = v.registry)
    (hr : ∀ j, w.referencesOf j = v.referencesOf j + if i = j then 1 else 0)
    (hv : w.instances.map (·.value) = c.made ++ new) (hi : i < c.made.length → c.lives i)
    (name : String) :
    Agrees (w.bind name i) { c.bind name (some i) with made := c.made ++ new } := by
  have hw : (w.names.map (·.1)).Nodup := hn ▸ h.nodup
  have hfind (other : String) : w.find? other = c.refers other := by
    rw [← h.find?, Inventory.find?, hn]
    rfl
  refine h.rename (nodup_bind hw ..) (fun other => ?_) ((h.balanced.more hn hr).bind hw name)
    ((values_bind ..).trans hv) ((registry_drop ..).trans hg) rfl ?_ fun j hj hlive => ?_
  · rw [find?_bind, hfind]
    exact (c.refers_bind name other (some i)).symm
  · show c.made.length ≤ (c.made ++ new).length
    rw [List.length_append]
    exact Nat.le_add_right ..
  · obtain ⟨other, ho⟩ := Chronicle.lives_iff.mp hlive
    have ho := (c.refers_bind name other (some i)).symm.trans ho
    split at ho
    · cases ho
      exact hi hj
    · exact Chronicle.lives_iff.mpr ⟨other, ho⟩

theorem make (h : Agrees v c) (name : String) (value : Int) :
    Agrees (v.step (.make name value)) (c.add (.make name value)) := by
  let w : Inventory := { v with instances := v.instances ++ [{ value, references := 1 }] }
  have hc : c.add (.make name value) =
      { c.bind name (some v.instances.length) with made := c.made ++ [value] } := by
    rw [h.length]
    rfl
  have hvalues : w.instances.map (·.value) = c.made ++ [value] := by
    rw [List.map_append, h.values]
    rfl
  rw [hc]
  refine h.bind (w := w) rfl rfl (v.referencesOf_push value) hvalues (fun hi => ?_) name
  exact absurd (h.length ▸ hi) (Nat.lt_irrefl _)

theorem clone (h : Agrees v c) (name other : String) :
    Agrees (v.step (.clone name other)) (c.add (.clone name other)) := by
  rcases hr : c.refers name with _ | i
  · have hv : v.step (.clone name other) = v := by simp only [Inventory.step, h.find?, hr]
    have hc : c.add (.clone name other) = c := by simp only [Chronicle.add, hr]
    rw [hv, hc]
    exact h
  · have hv : v.step (.clone name other) = (v.retain i).bind other i := by
      simp only [Inventory.step, h.find?, hr]
    have hc : c.add (.clone name other) =
        { c.bind other (some i) with made := c.made ++ [] } := by
      simp only [Chronicle.add, hr, List.append_nil]
      rfl
    have hvalues : (v.retain i).instances.map (·.value) = c.made ++ [] := by
      rw [List.append_nil, ← h.values]
      exact map_value_modify _ _ fun _ => rfl
    rw [hv, hc]
    exact h.bind (w := v.retain i) rfl rfl (referencesOf_retain (h.lt_of_refers hr)) hvalues
      (fun _ => Chronicle.lives_iff.mpr ⟨name, hr⟩) other

theorem drop (h : Agrees v c) (name : String) :
    Agrees (v.step (.drop name)) (c.add (.drop name)) := by
  refine h.rename (nodup_drop h.nodup name) (fun other => ?_) (h.balanced.drop h.nodup name)
    ((values_drop ..).trans h.values) (registry_drop ..) rfl (Nat.le_refl _) ?_
  · refine (find?_drop ..).trans ?_
    rw [h.find? other]
    exact (c.refers_bind name other none).symm
  · intro j _ hlive
    obtain ⟨other, ho⟩ := Chronicle.lives_iff.mp hlive
    have ho := (c.refers_bind name other none).symm.trans ho
    split at ho
    · cases ho
    · exact Chronicle.lives_iff.mpr ⟨other, ho⟩

/-- Right after a registration the registry tracks the registrations that live, and no others. -/
theorem tracked_register (h : Agrees v c) (hi : c.refers name = some i) :
    (v.step (.register name)).registry.tracked = (c.registered ++ [i]).filter c.lives := by
  have halive : c.lives i := Chronicle.lives_iff.mpr ⟨name, hi⟩
  simp only [Inventory.step, h.find?, hi]
  rw [h.alive]
  exact Registry.tracked_register (h.alive ▸ h.live) halive

theorem register (h : Agrees v c) (name : String) :
    Agrees (v.step (.register name)) (c.add (.register name)) := by
  rcases hr : c.refers name with _ | i
  · have hv : v.step (.register name) = v := by simp only [Inventory.step, h.find?, hr]
    have hc : c.add (.register name) = c := by
      simp only [Chronicle.add, hr, Option.toList_none, List.append_nil]
    rw [hv, hc]
    exact h
  · have hv : v.step (.register name) = { v with registry := v.registry.register v.alive i } := by
      simp only [Inventory.step, h.find?, hr]
    have hc : c.add (.register name) = { c with registered := c.registered ++ [i] } := by
      simp only [Chronicle.add, hr, Option.toList_some]
    have hlt : i < v.instances.length := h.lt_of_refers hr
    have halive : v.alive i := by
      rw [h.alive]
      exact Chronicle.lives_iff.mpr ⟨name, hr⟩
    rw [hv, hc]
    exact
      { nodup := h.nodup
        find? := h.find?
        balanced := h.balanced
        values := h.values
        tracked_lt := by
          intro j hj
          rcases List.mem_append.mp hj with hj | hj
          · exact h.tracked_lt j (List.mem_of_mem_filter hj)
          · exact List.mem_singleton.mp hj ▸ hlt
        registered_lt := by
          intro j hj
          rcases List.mem_append.mp hj with hj | hj
          · exact h.registered_lt j hj
          · exact List.mem_singleton.mp hj ▸ hlt
        live := Registry.live_register h.live halive }

/-- **Every step keeps the chronicle.** -/
theorem step (h : Agrees v c) (s : Step) : Agrees (v.step s) (c.add s) := by
  cases s with
  | make name value => exact h.make name value
  | register name => exact h.register name
  | clone name other => exact h.clone name other
  | drop name => exact h.drop name

theorem foldl (h : Agrees v c) (steps : List Step) :
    Agrees (steps.foldl Inventory.step v) (steps.foldl Chronicle.add c) := by
  induction steps generalizing v c with
  | nil => exact h
  | cons s steps ih => exact ih (h.step s)

theorem live_eq (h : Agrees v c) : v.live = (c.registered.filter c.lives).map c.value := by
  unfold Inventory.live
  rw [h.live, h.alive]
  refine congrArg (List.map · _) (funext fun i => ?_)
  rw [Chronicle.value, ← h.values, List.getElem?_map]

end Agrees

/-! ## Runs -/

theorem getElem?_run (v : Inventory) (steps : List Step) (k : Nat) :
    (v.run steps)[k]? = steps[k]?.map fun s => ((steps.take k).foldl step v).step s := by
  induction steps generalizing v k with
  | nil => rfl
  | cons s steps ih =>
    cases k with
    | zero => rfl
    | succ k => exact ih (v.step s) k

/-- **The registry is exact.** After each step of a run it lists the registered instances that a
name stands for, in the order of their registrations and once for each, and counts as many; it
tracks no fewer. Right after a registration it tracks just these, the new one last. -/
theorem registry_exact {steps : List Step} {k : Nat} (hk : k < steps.length) :
    ∃ v, (run {} steps)[k]? = some v ∧
    let c := Chronicle.of (steps.take (k + 1))
    v.registry.live v.alive = c.registered.filter c.lives ∧
    v.live = (c.registered.filter c.lives).map c.value ∧
    v.liveCount = v.live.length ∧ v.liveCount ≤ v.tracked ∧
    ∀ name i, steps[k]? = some (.register name) → c.refers name = some i →
      v.registry.tracked = c.registered.filter c.lives ∧ v.registry.tracked.getLast? = some i := by
  obtain ⟨s, hs⟩ : ∃ s, steps[k]? = some s := ⟨_, List.getElem?_eq_getElem hk⟩
  have hprev : Agrees ((steps.take k).foldl step {}) (Chronicle.of (steps.take k)) :=
    Agrees.start.foldl _
  have hc : Chronicle.of (steps.take (k + 1)) = (Chronicle.of (steps.take k)).add s := by
    rw [Chronicle.of, List.take_add_one, hs, List.foldl_append]
    rfl
  refine ⟨_, by rw [getElem?_run, hs]; rfl, ?_⟩
  rw [hc]
  have hv := hprev.step s
  refine ⟨?_, hv.live_eq, ?_, Registry.liveCount_le .., ?_⟩
  · rw [hv.live, hv.alive]
  · rw [Inventory.live, List.length_map]
    exact Registry.liveCount_eq ..
  · intro name i hreg hi
    obtain rfl : s = .register name := Option.some.inj (hs.symm.trans hreg)
    -- A registration leaves the names as they were.
    have hi : (Chronicle.of (steps.take k)).refers name = some i := hi
    have hlives : (Chronicle.of (steps.take k)).lives i := Chronicle.lives_iff.mpr ⟨name, hi⟩
    rw [hprev.tracked_register hi]
    constructor
    · simp only [Chronicle.add, hi, Option.toList_some]
      rfl
    · rw [List.filter_append, List.filter_singleton, hlives]
      exact List.getLast?_concat

/-- Instance 0 is registered twice, once under a second name. Both instances lose their first name,
and one of these is used for a third instance, which is registered. -/
def reused : List Step :=
  [.make "a" 7, .register "a", .make "b" 8, .register "b", .clone "a" "c", .register "c",
    .drop "b", .drop "a", .make "a" 9, .register "a"]

theorem registry_exact_reused : 9 < reused.length ∧ ∃ v, (run {} reused)[9]? = some v ∧
    reused[9]? = some (.register "a") ∧
    (Chronicle.of (reused.take (9 + 1))).refers "a" = some 2 ∧
    v.live = [7, 7, 9] ∧ v.liveCount = 3 ∧ v.registry.tracked = [0, 0, 2] := by
  have hk : 9 < reused.length := by decide
  obtain ⟨v, hv, -, hlive, hcount, -, htracked⟩ := registry_exact hk
  have hi : (Chronicle.of (reused.take (9 + 1))).refers "a" = some 2 := by decide +kernel
  obtain ⟨ht, -⟩ := htracked "a" 2 rfl hi
  have hl : v.live = [7, 7, 9] := hlive.trans (by decide +kernel)
  refine ⟨hk, v, hv, rfl, hi, hl, ?_, ht.trans (by decide +kernel)⟩
  rw [hcount, hl]
  rfl

end Inventory

end KeyedLocks
