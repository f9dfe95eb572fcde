/-!
# The registry of instances

A `Registry` lists instances without keeping them alive: whether one still lives is asked of the
outside. The dead are taken out when something is registered, not before. `Inventory` is a registry
together with the instances and the names that refer to them; an instance lives while some name
refers to it, which a count of references keeps track of.
-/

namespace KeyedLocks

/-- Instances in the order of their registration, once for each registration. -/
structure Registry (α : Type) where
  tracked : List α := []
deriving Repr, DecidableEq, Inhabited

namespace Registry

variable {α : Type}

/-- Take out the dead and put `a` last. -/
def register (r : Registry α) (alive : α → Bool) (a : α) : Registry α :=
  ⟨r.tracked.filter alive ++ [a]⟩

/-- The registered instances that live. -/
def live (r : Registry α) (alive : α → Bool) : List α := r.tracked.filter alive

def liveCount (r : Registry α) (alive : α → Bool) : Nat := r.tracked.countP alive

end Registry

/-- An instance with its value and the number of references to it. -/
structure Instance where
  value : Int
  references : Nat
deriving Repr, DecidableEq, Inhabited

/-- Instances by number, names for them, and the registry. -/
structure Inventory where
  instances : List Instance := []
  names : List (String × Nat) := []
  registry : Registry Nat := {}
deriving Repr, DecidableEq

namespace Inventory

inductive Step where
  /-- Make an instance under a name. -/
  | make (name : String) (value : Int)
  | register (name : String)
  /-- Make `other` a second name for the instance under `name`. -/
  | clone (name other : String)
  | drop (name : String)
deriving Repr, DecidableEq

def referencesOf (v : Inventory) (i : Nat) : Nat := (v.instances[i]?.map (·.references)).getD 0

def alive (v : Inventory) (i : Nat) : Bool := v.referencesOf i != 0

def find? (v : Inventory) (name : String) : Option Nat := v.names.lookup name

def retain (v : Inventory) (i : Nat) : Inventory :=
  { v with instances := v.instances.modify i fun x => { x with references := x.references + 1 } }

def release (v : Inventory) (i : Nat) : Inventory :=
  { v with instances := v.instances.modify i fun x => { x with references := x.references - 1 } }

/-- Forget a name and the reference it was. -/
def drop (v : Inventory) (name : String) : Inventory :=
  match v.find? name with
  | none => v
  | some i => { v.release i with names := v.names.filter (·.1 ≠ name) }

/-- Let `name` take over a reference to instance `i`; what had the name loses one. -/
def bind (v : Inventory) (name : String) (i : Nat) : Inventory :=
  let v := v.drop name
  { v with names := (name, i) :: v.names }

def step (v : Inventory) : Step → Inventory
  | .make name value =>
    let made : Inventory := { v with instances := v.instances ++ [{ value, references := 1 }] }
    made.bind name v.instances.length
  | .register name =>
    match v.find? name with
    | none => v
    | some i => { v with registry := v.registry.register v.alive i }
  | .clone name other =>
    match v.find? name with
    | none => v
    | some i => (v.retain i).bind other i
  | .drop name => v.drop name

/-- The values of the live instances, in the order of their registrations. -/
def live (v : Inventory) : List Int :=
  (v.registry.live v.alive).map fun i => (v.instances[i]?.map (·.value)).getD 0

def liveCount (v : Inventory) : Nat := v.registry.liveCount v.alive

def tracked (v : Inventory) : Nat := v.registry.tracked.length

/-- The inventories after each step. -/
def run : Inventory → List Step → List Inventory
  | _, [] => []
  | v, s :: steps => v.step s :: (v.step s).run steps

end Inventory

end KeyedLocks
