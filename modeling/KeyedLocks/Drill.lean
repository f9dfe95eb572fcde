import KeyedLocks.Json
import KeyedLocks.Scenario.Report

/-!
# The deadlock drill

Two threads take one key each and then ask for the other's: the waiter first, which has to wait,
then the asker, which has to be refused. The keys are in one factory or, if `split`, in two.
-/

namespace KeyedLocks.Drill

/-- Attempts, queue limit and milliseconds of a wait: a deadlock that goes undetected ends too. -/
def policy : Scenario.PolicySource := .numbers 50 (-1) 100

def asker : ThreadId := 0

def waiter : ThreadId := 1

/-- The step in which the waiter starts to wait. -/
def waitIndex : Nat := 4

/-- The step in which the asker closes the cycle. -/
def askIndex : Nat := 5

def steps (split : Bool) : List Scenario.Step :=
  [{ deed := .command (.factory "of x" policy) },
    { deed := .command (if split then .factory "of y" policy else .cloneFactory "of x" "of y") },
    { deed := .task waiter (.obtain "of x" "x" "x of waiter") },
    { deed := .task asker (.obtain "of y" "y" "y of asker") },
    { deed := .task waiter (.obtain "of y" "y" "y of waiter"), async := true },
    { deed := .task asker (.obtain "of x" "x" "x of asker") },
    { deed := .task asker (.release "x of asker") },
    { deed := .task asker (.release "y of asker") },
    { deed := .task waiter (.release "x of waiter") },
    { deed := .task waiter (.release "y of waiter") }]

/-- A drill that went as it should: the thread that was refused, and for which key. -/
structure Report where
  factories : Nat
  identifier : String
  detectedBy : String
  error : LockError
deriving Repr, DecidableEq

inductive Failure where
  | notQueued
  | unexpected (e : LockError)
  | undetected
deriving Repr, DecidableEq

def Failure.message : Failure → String
  | .notQueued => "worker never queued for y"
  | .unexpected e => s!"expected a deadlock, got: {e.message}"
  | .undetected => "lock cycle was not detected"

/-- What the answers to the two requests say. -/
def judge (split : Bool) (toAsker toWaiter : Option Scenario.Answer) : Except Failure Report :=
  let found (who : String) (e : LockError) : Except Failure Report :=
    if e.isDeadlock then
      .ok { factories := if split then 2 else 1, identifier := e.identifier, detectedBy := who,
            error := e }
    else .error (.unexpected e)
  match toAsker, toWaiter with
  | some (.lockError e), _ => found "main" e
  | _, some (.lockError e) => found "worker" e
  | _, _ => .error .undetected

def run (split : Bool) : Except Failure Report :=
  let reports := (Scenario.run 2 (steps split)).elim [] (·.1)
  let answerTo (i : Nat) : Option Scenario.Answer := reports[i]?.map Scenario.Report.answer
  let ending := (reports.flatMap (·.endings)).find? (·.step = waitIndex)
  match answerTo waitIndex with
  | some .blocked => judge split (answerTo askIndex) (ending.map (·.answer))
  | _ => .error .notQueued

def Report.toJson (r : Report) : Json.Record :=
  [("factories", .number r.factories), ("identifier", .text r.identifier),
    ("detected_by", .text r.detectedBy), ("error", .text r.error.message)]

def Report.display (r : Report) : String :=
  s!"Deadlock detected by {r.detectedBy} thread acquiring {r.identifier} " ++
    s!"({r.factories} factories)\n  {r.error.message}"

end KeyedLocks.Drill
