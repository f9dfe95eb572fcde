import KeyedLocks.System

/-!
# Contention

Workers contend for the keys of one table. In iteration `i`, worker `t` obtains key `t + i` modulo
the number of keys, holds it for a while and gives it back. A `Tally` counts how that went. On the
way a worker marks that it is inside its key: a worker that finds another one inside counts a
violation.

A `Turn` is what may happen next; `Turns` chains turns in any order. `run` picks one order: each
worker acts for a while, then time passes, as much as that took, or up to the next deadline if
nobody could act.
-/

namespace KeyedLocks

/-- How the outcomes of all iterations add up. -/
structure Tally where
  acquired : Nat := 0
  tooManyQueued : Nat := 0
  attemptsExceeded : Nat := 0
  interrupted : Nat := 0
  deadlocks : Nat := 0
  violations : Nat := 0
deriving Repr, DecidableEq

namespace Tally

def succeed (y : Tally) : Tally := { y with acquired := y.acquired + 1 }

def violate (y : Tally) : Tally := { y with violations := y.violations + 1 }

/-- Count a failure. A lock that could not be given back is a violation. -/
def fail (y : Tally) : LockError → Tally
  | .tooManyQueued .. => { y with tooManyQueued := y.tooManyQueued + 1 }
  | .attemptsExceeded .. => { y with attemptsExceeded := y.attemptsExceeded + 1 }
  | .interrupted _ => { y with interrupted := y.interrupted + 1 }
  | .deadlock _ => { y with deadlocks := y.deadlocks + 1 }
  | .notHeld _ => y.violate

end Tally

namespace Contention

structure Setup where
  threads : Nat
  keys : Nat
  /-- Acquisitions of each worker. -/
  iterations : Nat
  /-- How long a key is held. -/
  hold : Duration
deriving Repr, DecidableEq

/-- The threads a process has room for. -/
def maxThreads : Nat := UInt16.size

/-- Whether there is no room for the workers, or for the keys: each takes a word of 8 bytes, and
addresses have 63 bits. -/
def Setup.isTooLarge (s : Setup) : Bool := maxThreads < s.threads || Int64.size / 2 ≤ 8 * s.keys

/-- Where a worker is in its iteration. -/
inductive Station where
  | start
  | obtaining
  | refused (e : LockError)
  | entering (h : Handle)
  | holding (h : Handle) (deadline : Nat)
  | leaving (h : Handle)
  | counting (h : Handle)
  | returning (h : Handle)
  | releasing (h : Handle)
  | failed (h : Handle) (e : LockError)
  | dropping (h : Handle)
  | dropped
  | over
deriving Repr, DecidableEq, Inhabited

/-- A worker has so many iterations behind it. -/
structure Worker where
  iteration : Nat := 0
  station : Station := .start
deriving Repr, DecidableEq, Inhabited

end Contention

open Contention in
/-- Workers at work on one table. -/
structure Contention where
  setup : Setup
  table : TableId
  system : System
  workers : Arena Worker := .empty
  /-- The number of workers inside each key. -/
  inside : Arena Nat := .empty
  tally : Tally := {}

namespace Contention

/-- Nobody has begun yet. -/
def start (setup : Setup) (policy : Policy) : Contention :=
  let memory : Memory := {}
  { setup, table := memory.tables.fresh, system := { memory := memory.addTable policy } }

def worker (c : Contention) (t : ThreadId) : Worker := c.workers.get t

/-- The number of the key a worker is after. -/
def keyOf (c : Contention) (t : ThreadId) : Nat := (t + (c.worker t).iteration) % c.setup.keys

def keyName (key : Nat) : String := s!"key-{key}"

def moveTo (c : Contention) (t : ThreadId) (s : Station) : Contention :=
  { c with workers := c.workers.modify t fun w => { w with station := s } }

/-- End the iteration of a worker. -/
def nextIteration (c : Contention) (t : ThreadId) : Contention :=
  { c with workers := c.workers.modify t fun w => { iteration := w.iteration + 1 } }

/-- Where an outcome leads a worker that waits for it. -/
def resume (c : Contention) (t : ThreadId) (o : Outcome) : Contention :=
  match (c.worker t).station, o with
  | .obtaining, .obtained h => c.moveTo t (.entering h)
  | .obtaining, .refused e => c.moveTo t (.refused e)
  | .releasing h, .refused e => c.moveTo t (.failed h e)
  | .releasing h, _ => c.moveTo t (.dropping h)
  | .dropped, _ => c.nextIteration t
  | _, _ => c

def takeNote (c : Contention) (t : ThreadId) : Note → Contention
  | .called _ | .event _ => c
  | .returned o => c.resume t o

/-- Start a call; the worker's station says what for. -/
def call (c : Contention) (t : ThreadId) (x : Call) (s : Station) : Option Contention :=
  (c.system.call t x).map fun system => { c with system }.moveTo t s

/-- The next action of the call a worker waits for. -/
def carryOn (c : Contention) (t : ThreadId) : Option Contention :=
  (c.system.act t).map fun (system, notes) => notes.foldl (·.takeNote t ·) { c with system }

/-- The next action of a worker. -/
def act (c : Contention) (t : ThreadId) : Option Contention :=
  match (c.worker t).station with
  | .start =>
    if (c.worker t).iteration < c.setup.iterations then
      c.call t (.obtain c.table (keyName (c.keyOf t))) .obtaining
    else some (c.moveTo t .over)
  | .obtaining | .releasing _ | .dropped => c.carryOn t
  | .refused e => some ({ c with tally := c.tally.fail e }.nextIteration t)
  | .entering h =>
    let others := c.inside.get (c.keyOf t)
    let tally := if others = 0 then c.tally else c.tally.violate
    some ({ c with inside := c.inside.set (c.keyOf t) (others + 1), tally }.moveTo t
      (.holding h (c.system.now + c.setup.hold.nanos)))
  | .holding h deadline => if deadline ≤ c.system.now then some (c.moveTo t (.leaving h)) else none
  | .leaving h =>
    some ({ c with inside := c.inside.modify (c.keyOf t) (· - 1) }.moveTo t (.counting h))
  | .counting h =>
    some ({ c with tally := c.tally.succeed }.moveTo t (.returning h))
  | .returning h => c.call t (.release h) (.releasing h)
  | .failed h e => some ({ c with tally := c.tally.fail e }.moveTo t (.dropping h))
  | .dropping h => c.call t (.act (.forgo h.table)) .dropped
  | .over => none

/-! ## Turns -/

/-- A worker acts, a sleeping one is roused, or time passes. -/
inductive Turn where
  | act (t : ThreadId)
  | rouse (t : ThreadId)
  | tick (nanos : Nat)
deriving Repr, DecidableEq

def turn (c : Contention) : Turn → Option Contention
  | .act t => if t < c.setup.threads then c.act t else none
  | .rouse t => (c.system.rouse t).map fun system => { c with system }
  | .tick d => some { c with system := c.system.tick d }

/-- `Turns c c'`: some turns, in any order, lead from `c` to `c'`. -/
inductive Turns : Contention → Contention → Prop where
  | refl (c : Contention) : Turns c c
  | step {c c' c'' : Contention} {x : Turn} : c.turn x = some c' → Turns c' c'' → Turns c c''

theorem Turns.trans {c c' c'' : Contention} (h : Turns c c') (h' : Turns c' c'') : Turns c c'' := by
  induction h with
  | refl => exact h'
  | step hx _ ih => exact .step hx (ih h')

def isOver (c : Contention) : Bool :=
  (List.range c.setup.threads).all fun t => (c.worker t).station = .over

/-! ## One order of turns -/

def threads (c : Contention) : List ThreadId := List.range c.setup.threads

/-- Let a worker act until it is held up, `n` times at most; counts its actions. -/
def stint (t : ThreadId) : Nat → Contention → Contention × Nat
  | 0, c => (c, 0)
  | n + 1, c =>
    match c.act t with
    | none => (c, 0)
    | some c =>
      let (c, actions) := stint t n c
      (c, actions + 1)

/-- The most actions of a worker before it is the turn of another. -/
def stintLength : Nat := 100

/-- A stint of every worker; gives the number of actions of the longest one. -/
def round (c : Contention) : Contention × Nat :=
  c.threads.foldl (fun (c, longest) t =>
    let (c, actions) := c.stint t stintLength
    (c, max longest actions)) (c, 0)

/-- When a worker goes on, if it only waits for the time. -/
def deadline? (c : Contention) (t : ThreadId) : Option Nat :=
  match (c.worker t).station with
  | .holding _ deadline => some deadline
  | _ => c.system.deadline? t

/-- The nanoseconds that an action takes: a hundred, or more where workers that never sleep would
act more than about a million times until everybody had a turn with a key. -/
def Setup.pace (s : Setup) : Nat :=
  max 100 (s.threads * s.threads * s.iterations * s.hold.nanos / 1000000)

def passTo (c : Contention) (moment : Nat) : Contention :=
  { c with system := c.system.passTo c.threads moment }

/-- The first moment at which a worker goes on, if some worker only waits for the time. -/
def nextDeadline? (c : Contention) : Option Nat := (c.threads.filterMap c.deadline?).min?

/-- Let the workers act, each until it is held up or its stint is over. The workers act side by
side, so a round takes as long as its longest stint. When none of them can act, time passes until
one can. -/
def run : Nat → Contention → Contention
  | 0, c => c
  | fuel + 1, c =>
    let (c, actions) := c.round
    if actions ≠ 0 then run fuel (c.passTo (c.system.now + actions * c.setup.pace))
    else
      match c.nextDeadline? with
      | none => c
      | some moment => run fuel (c.passTo moment)

end Contention

end KeyedLocks
