import KeyedLocks.Contention
import KeyedLocks.Json

/-!
# Reports of contentions

What is told of a contention in the end, in lines for a person and as a JSON object.
-/

namespace KeyedLocks.Contention

structure Report where
  setup : Setup
  tally : Tally
  /-- Keys that are still registered. -/
  leaked : Nat
  /-- How long it took in milliseconds; absent where times are not to be told. -/
  elapsed : Option Nat
deriving Repr, DecidableEq

def report (c : Contention) : Report where
  setup := c.setup
  tally := c.tally
  leaked := c.system.memory.activeLocks c.table
  elapsed := some (c.system.now / 1000000)

namespace Report

/-- The counts with their names. -/
def counts (r : Report) : List (String × Nat) :=
  [("acquired", r.tally.acquired), ("too_many_queued", r.tally.tooManyQueued),
    ("attempts_exceeded", r.tally.attemptsExceeded), ("interrupted", r.tally.interrupted),
    ("deadlocks", r.tally.deadlocks), ("violations", r.tally.violations),
    ("leaked_locks", r.leaked)]

def elapsedField (r : Report) : Json.Field := r.elapsed.elim .varying fun n => .number n

def toJson (r : Report) : Json.Record :=
  [("threads", .number r.setup.threads), ("keys", .number r.setup.keys),
    ("iterations", .number r.setup.iterations)] ++
    r.counts.map (fun (name, n) => (name, .number n)) ++ [("elapsed_ms", r.elapsedField)]

/-- The column in which the counts stand. -/
def countColumn : Nat := 19

def countLine (name : String) (n : Nat) : String :=
  s!"  {name}:".pushn ' ' (countColumn - name.length - 1) ++ toString n

def display (r : Report) : String :=
  let heading :=
    s!"Contended {r.setup.keys} keys from {r.setup.threads} threads x {r.setup.iterations} " ++
      s!"iterations in {r.elapsedField.render}ms"
  "\n".intercalate (heading :: r.counts.map fun (name, n) => countLine name n)

end Report

end KeyedLocks.Contention
