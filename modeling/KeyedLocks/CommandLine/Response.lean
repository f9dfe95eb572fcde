import KeyedLocks.CommandLine.Help
import KeyedLocks.Contention.Report
import KeyedLocks.Drill
import KeyedLocks.Policy.File
import KeyedLocks.Policy.Printer

/-!
# Responses

What the program answers to its arguments: an exit code and what it writes. A command that succeeds
gives a `Printout`, which is written in the format asked for; one that fails gives a `Failure`.
-/

namespace KeyedLocks.CommandLine

/-- What a command works with. -/
structure Surroundings where
  /-- What reading a file gives. -/
  files : String → Except FileError String
  /-- Whether to tell how long something took. -/
  tellsTimes : Bool

inductive Printout where
  | policy (p : Policy)
  | contention (r : Contention.Report)
  | drill (r : Drill.Report)

def Printout.write : Format → Printout → String
  | .text, policy p => p.display
  | .text, contention r => r.display
  | .text, drill r => r.display
  | .json, policy p => Json.pretty p.toJson
  | .json, contention r => Json.pretty r.toJson
  | .json, drill r => Json.pretty r.toJson

inductive Failure where
  | policy (e : PolicyError)
  | emptyContention
  | hugeContention
  | drill (e : Drill.Failure)

namespace Failure

def message : Failure → String
  | policy e => e.message
  | emptyContention => "--threads and --keys must be at least 1"
  | hugeContention => "--threads and --keys must fit into memory"
  | drill e => e.message

def cause : Failure → Option String
  | policy e => e.cause
  | _ => none

/-- The message, and what lies below it with each line indented. -/
def render (e : Failure) : String :=
  let below := match e.cause with
    | none => ""
    | some cause =>
      let lines := (cause.splitOn "\n").map ("    " ++ ·)
      "\nCaused by:\n" ++ "\n".intercalate lines ++ "\n"
  s!"Error: {e.message}\n{below}"

/-- A fatal policy ends the program abruptly, and so does a contention that memory cannot hold. -/
def exitCode : Failure → UInt8
  | policy e => if e.isFatal then 101 else 1
  | hugeContention => 101
  | emptyContention | drill _ => 1

end Failure

/-- No contention takes so many rounds. -/
def contentionFuel : Nat := 1000000000000

def Command.run (s : Surroundings) : Command → Except Failure Printout
  | checkConfig path => do
    let p ← (Policy.load s.files path).mapError .policy
    .ok (.policy p)
  | contend path setup => do
    if setup.threads = 0 ∨ setup.keys = 0 then throw .emptyContention
    let p ← match path with
      | none => pure .unbounded
      | some path => (Policy.load s.files path).mapError .policy
    if setup.isTooLarge then throw .hugeContention
    let r := ((Contention.start setup p).run contentionFuel).report
    .ok (.contention (if s.tellsTimes then r else { r with elapsed := none }))
  | deadlock split => do
    let r ← (Drill.run split).mapError .drill
    .ok (.drill r)

structure Response where
  exitCode : UInt8
  output : String
  errors : String
deriving Repr, DecidableEq

namespace Response

def succeed (output : String) : Response := { exitCode := 0, output, errors := "" }

def ofUsageError (e : UsageError) : Response where
  exitCode := 2
  output := ""
  errors := s!"error: {e.message}\n\nFor more information, try '--help'.\n"

def ofFailure (e : Failure) : Response where
  exitCode := e.exitCode
  output := ""
  errors := e.render

end Response

def Request.answer (s : Surroundings) : Request → Response
  | help topic => .succeed topic.text
  | version => .succeed versionText
  | run format command =>
    match command.run s with
    | .ok printout => .succeed (printout.write format ++ "\n")
    | .error e => .ofFailure e

/-- The response to the arguments of the program. -/
def respond (s : Surroundings) (args : List String) : Response :=
  match Request.read args with
  | .ok request => request.answer s
  | .error e => .ofUsageError e

end KeyedLocks.CommandLine
