import KeyedLocks.CommandLine.Arguments
import KeyedLocks.Contention

/-!
# Requests

What the arguments of the program ask for: to run a command and write its result in a format, or
help, or the version. `--format` may stand before the command or after it; the later one counts.
-/

namespace KeyedLocks.CommandLine

inductive Format where
  | text
  | json
deriving Repr, DecidableEq

def Format.ofName? : String → Option Format
  | "text" => some .text
  | "json" => some .json
  | _ => none

inductive CommandName where
  | checkConfig
  | contend
  | deadlock
deriving Repr, DecidableEq

def CommandName.ofName? : String → Option CommandName
  | "check-config" => some .checkConfig
  | "contend" => some .contend
  | "deadlock" => some .deadlock
  | _ => none

/-- A command with its arguments. -/
inductive Command where
  /-- Judge a policy file. -/
  | checkConfig (path : String)
  /-- Contend for keys under the policy of a file, or without limits. -/
  | contend (policyPath : Option String) (setup : Contention.Setup)
  /-- Stage a deadlock, in two factories if `split`. -/
  | deadlock (split : Bool)
deriving Repr, DecidableEq

/-- What help is asked for. -/
inductive Topic where
  | program
  | command (name : CommandName)
  | help
deriving Repr, DecidableEq

inductive Request where
  | help (topic : Topic)
  | version
  | run (format : Format) (command : Command)
deriving Repr, DecidableEq

/-- A number of 64 bits: digits, with a plus sign in front or without. -/
def count? (s : String) : Option UInt64 :=
  let digits := match s.toList with
    | '+' :: cs => cs
    | cs => cs
  if digits ≠ [] ∧ digits.all Char.isDigit then
    let n := digits.foldl (fun n c => 10 * n + (c.toNat - '0'.toNat)) 0
    if n < UInt64.size then some (.ofNat n) else none
  else none

def formatParameter : Parameter := ⟨"format", fun s => (Format.ofName? s).isSome⟩

def pathParameter (name : String) : Parameter := ⟨name, fun s => s ≠ ""⟩

def countParameter (name : String) : Parameter := ⟨name, fun s => (count? s).isSome⟩

def programGrammar : Grammar where
  options := [formatParameter]
  hasCommands := true
  hasVersion := true

def CommandName.grammar : CommandName → Grammar
  | .checkConfig => { options := [formatParameter], words := [pathParameter "PATH"] }
  | .contend =>
    { options := [formatParameter, pathParameter "config", countParameter "threads",
        countParameter "keys", countParameter "iterations", countParameter "hold-ms"] }
  | .deadlock => { options := [formatParameter], marks := ["split"] }

/-- A count that was given, or else its default. -/
def Found.count (f : Found) (name : String) (default : UInt64) : UInt64 :=
  ((f.value? name).bind count?).getD default

/-- The command with the arguments that were found for it. -/
def CommandName.command (n : CommandName) (f : Found) : Command :=
  match n with
  | .checkConfig => .checkConfig (f.words.headD "")
  | .contend => .contend (f.value? "config")
    { threads := (f.count "threads" 8).toNat
      keys := (f.count "keys" 2).toNat
      iterations := (f.count "iterations" 100).toNat
      hold := .ofMillis (f.count "hold-ms" 1) }
  | .deadlock => .deadlock (f.has "split")

/-- The topic after the word `help`. -/
def Topic.read : List String → Except UsageError Topic
  | [] => .ok .program
  | ["help"] => .ok .help
  | [name] =>
    match CommandName.ofName? name with
    | some n => .ok (.command n)
    | none => .error (.unknownCommand name)
  | _ :: name :: _ => .error (.unknownCommand name)

/-- The request that a command makes with what was found before it and the arguments after it. -/
def CommandName.request (n : CommandName) (before : Found) (args : List String) :
    Except UsageError Request := do
  match ← n.grammar.read {} args with
  | .help => .ok (.help (.command n))
  | .version => .ok .version
  | .command _ name _ => .error (.unexpected name)
  | .done f =>
    let before ← programGrammar.settle before
    let format := ((f.value? "format").orElse fun _ => before.value? "format").bind Format.ofName?
    .ok (.run (format.getD .text) (n.command f))

namespace Request

def read (args : List String) : Except UsageError Request := do
  match ← programGrammar.read {} args with
  | .help => .ok (.help .program)
  | .version => .ok .version
  | .done _ => .error .missingCommand
  | .command before name rest =>
    if name = "help" then .ok (.help (← Topic.read rest))
    else
      match CommandName.ofName? name with
      | some n => n.request before rest
      | none => .error (.unknownCommand name)

/-- The file a request needs. -/
def path? : Request → Option String
  | .run _ (.checkConfig path) => some path
  | .run _ (.contend path _) => path
  | _ => none

end Request

end KeyedLocks.CommandLine
