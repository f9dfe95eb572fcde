/-!
# Arguments of a command

An argument that starts with two hyphens names an option; its value follows an equals sign or is the
next argument. After a lone `--` nothing is an option any more. A `Grammar` says what a command
accepts, and `Grammar.read` collects it from left to right: it ends at the first mistake, at a
request for help or for the version, or at the name of a command. A value that is an argument of its
own is judged only when something other than a command follows, so that a request for help behind
the name of a command comes before a mistake in the value in front of it.
-/

namespace KeyedLocks.CommandLine

/-- Why arguments cannot be understood. -/
inductive UsageError where
  | unexpected (argument : String)
  | missingValue (option : String)
  | unwantedValue (option value : String)
  | invalidValue (name value : String)
  | repeated (option : String)
  | missingWord (name : String)
  | missingCommand
  | unknownCommand (name : String)
deriving Repr, DecidableEq

def UsageError.message : UsageError → String
  | .unexpected a => s!"unexpected argument '{a}' found"
  | .missingValue o => s!"a value is required for '--{o}' but none was supplied"
  | .unwantedValue o v => s!"unexpected value '{v}' for '--{o}' found; no more were expected"
  | .invalidValue o v => s!"invalid value '{v}' for '{o}'"
  | .repeated o => s!"the argument '--{o}' cannot be used multiple times"
  | .missingWord name => s!"the required argument '{name}' was not provided"
  | .missingCommand => "a command is required but none was provided"
  | .unknownCommand name => s!"unrecognized command '{name}'"

/-- What one argument looks like. -/
inductive Argument where
  | word (text : String)
  /-- The end of the options. -/
  | divider
  | option (name : String) (value : Option String)
  /-- One hyphen and letters. -/
  | letters (text : String)
deriving Repr, DecidableEq

def Argument.ofString (s : String) : Argument :=
  match s.toList with
  | ['-', '-'] => .divider
  | '-' :: '-' :: cs =>
    let name := String.ofList (cs.takeWhile (· ≠ '='))
    match cs.dropWhile (· ≠ '=') with
    | [] => .option name none
    | _ :: value => .option name (some (String.ofList value))
  | '-' :: c :: cs => .letters (String.ofList (c :: cs))
  | _ => .word s

/-- A value with a name, and which texts it may be. -/
structure Parameter where
  name : String
  accepts : String → Bool

/-- What a command accepts besides `--help`. -/
structure Grammar where
  /-- Options with a value. -/
  options : List Parameter := []
  /-- Options without one. -/
  marks : List String := []
  /-- Arguments that are no options; all of them have to be there. -/
  words : List Parameter := []
  /-- Whether the first word is a command with arguments of its own. -/
  hasCommands : Bool := false
  /-- Whether `--version` is an option. -/
  hasVersion : Bool := false

/-- What was collected so far; a mark has the empty text as its value. -/
structure Found where
  values : List (String × String) := []
  words : List String := []
  /-- An option with its value that nobody judged yet. -/
  pending : Option (String × String) := none
deriving Repr, DecidableEq

namespace Found

def value? (f : Found) (name : String) : Option String := f.values.lookup name

def has (f : Found) (name : String) : Bool := (f.value? name).isSome

/-- An option may be given once. -/
def add (f : Found) (name value : String) : Except UsageError Found :=
  if f.has name then .error (.repeated name) else .ok { f with values := (name, value) :: f.values }

end Found

inductive Reading where
  | done (f : Found)
  | help
  | version
  | command (f : Found) (name : String) (rest : List String)
deriving Repr, DecidableEq

namespace Grammar

/-- Take in an option with an acceptable value. -/
def addOption (g : Grammar) (f : Found) (name value : String) : Except UsageError Found :=
  if g.options.any fun p => p.name = name && p.accepts value then f.add name value
  else .error (.invalidValue ("--" ++ name) value)

/-- Judge what is pending. -/
def settle (g : Grammar) (f : Found) : Except UsageError Found :=
  match f.pending with
  | none => .ok f
  | some (name, value) => g.addOption { f with pending := none } name value

def addWord (g : Grammar) (f : Found) (word : String) : Except UsageError Found :=
  match g.words[f.words.length]? with
  | none => .error (.unexpected word)
  | some p =>
    if p.accepts word then .ok { f with words := f.words ++ [word] }
    else .error (.invalidValue p.name word)

/-- End with what was collected, unless a word is missing. -/
def finish (g : Grammar) (f : Found) : Except UsageError Reading := do
  let f ← g.settle f
  match g.words[f.words.length]? with
  | none => .ok (.done f)
  | some p => .error (.missingWord p.name)

def read (g : Grammar) (f : Found) : List String → Except UsageError Reading
  | [] => g.finish f
  | a :: rest =>
    match Argument.ofString a with
    | .word w =>
      if g.hasCommands then .ok (.command f w rest)
      else do g.read (← g.addWord (← g.settle f) w) rest
    | .divider => do g.finish (← rest.foldlM g.addWord (← g.settle f))
    | .letters s => do
      let _ ← g.settle f
      if s.startsWith "h" then .ok .help
      else if g.hasVersion && s.startsWith "V" then .ok .version
      else .error (.unexpected a)
    | .option name value => do
      let f ← g.settle f
      if name ∈ g.options.map (·.name) then
        match value, rest with
        | some v, rest => do g.read (← g.addOption f name v) rest
        | none, [] => .error (.missingValue name)
        | none, v :: rest =>
          match Argument.ofString v with
          | .word w => g.read { f with pending := some (name, w) } rest
          | _ => .error (.missingValue name)
      else if name = "help" || g.hasVersion && name = "version" || name ∈ g.marks then
        match value with
        | some v => .error (.unwantedValue name v)
        | none =>
          if name = "help" then .ok .help
          else if name ∈ g.marks then do g.read (← f.add name "") rest
          else .ok .version
      else .error (.unexpected a)
termination_by args => args.length

end Grammar

end KeyedLocks.CommandLine
