import KeyedLocks.Policy.Basic
import KeyedLocks.Duration.Parser
import KeyedLocks.Text.Excerpt
import KeyedLocks.Text.Quoted
import KeyedLocks.Toml.Parser

/-!
# Policies in TOML

A policy document has exactly the fields `acquire_attempts`, `maximum_queued` and `spin_time`.
`ofTable` judges a table: its entries in the order of the text, then missing fields, then the
limits. `ofToml` reads a text. A fault in the entries has a place in the text and is shown with it;
a fault in the limits has none.
-/

namespace KeyedLocks.Policy

open Toml (Item Entries Span)

/-- What is wrong with a table. -/
inductive Fault where
  | unknownField (name : String)
  | missingField (name : String)
  | wrongType (found : Item) (expected : String)
  | noDuration (text : String)
  | limit (e : LimitError)

/-- A kind of value in words. -/
def describe : Item → String
  | .string s => s!"string {Text.quote s}"
  | .integer n => s!"integer `{n.toInt}`"
  | .float x => s!"floating point `{x.render}`"
  | .boolean b => s!"boolean `{b}`"
  | .array _ | .tables _ => "sequence"
  | .table .. | .moment => "map"

def Fault.message : Fault → String
  | .unknownField name =>
    s!"unknown field `{name}`, expected one of `acquire_attempts`, `maximum_queued`, `spin_time`"
  | .missingField name => s!"missing field `{name}`"
  | .wrongType found expected => s!"invalid type: {describe found}, expected {expected}"
  | .noDuration text => s!"invalid value: string {Text.quote text}, expected a duration"
  | .limit e => e.message

/-- Why a text is no policy. -/
inductive DocumentError where
  /-- No TOML at all. -/
  | notToml
  /-- TOML, but no policy: the fault, and its place if it has one. -/
  | fault (place : Option Span) (f : Fault)
  /-- The time to wait came to 2^64 seconds. -/
  | spinOverflow

/-- The fields read so far. -/
structure Fields where
  attempts : Option Int64 := none
  queued : Option Int64 := none
  spinTime : Option Duration := none

def integerOf (place : Span) : Item → Except DocumentError Int64
  | .integer n => .ok n
  | item => .error (.fault place (.wrongType item "i64"))

def durationOf (place : Span) : Item → Except DocumentError Duration
  | .string s =>
    match Duration.parse s with
    | .ok d => .ok d
    | .error .invalid => .error (.fault place (.noDuration s))
    | .error .overflow => .error .spinOverflow
  | item => .error (.fault place (.wrongType item "a duration"))

/-- Take in one entry. -/
def Fields.read (fields : Fields) : Toml.Entry → Except DocumentError Fields
  | (key, place, item) =>
    if key.name = "acquire_attempts" then do
      let n ← integerOf place item
      .ok { fields with attempts := some n }
    else if key.name = "maximum_queued" then do
      let n ← integerOf place item
      .ok { fields with queued := some n }
    else if key.name = "spin_time" then do
      let d ← durationOf place item
      .ok { fields with spinTime := some d }
    else .error (.fault key.span (.unknownField key.name))

/-- From the start of the text to the end of its last value. -/
def extent (entries : Entries) : Span := ⟨0, (entries.getLast?.map (·.2.1.stop)).getD 0⟩

def require {α : Type} (entries : Entries) (name : String) : Option α → Except DocumentError α
  | some x => .ok x
  | none => .error (.fault (extent entries) (.missingField name))

/-- The policy of a table. -/
def ofTable (entries : Entries) : Except DocumentError Policy := do
  let fields ← entries.foldlM Fields.read {}
  let attempts ← require entries "acquire_attempts" fields.attempts
  let queued ← require entries "maximum_queued" fields.queued
  let spinTime ← require entries "spin_time" fields.spinTime
  match ofLimits attempts queued spinTime with
  | .ok p => .ok p
  | .error e => .error (.fault none (.limit e))

/-- The policy of a TOML text. -/
def ofToml (text : String) : Except DocumentError Policy :=
  match Toml.parse text with
  | none => .error .notToml
  | some entries => ofTable entries

/-- The text of an error in `text`; it ends in a line feed. -/
def DocumentError.message (text : String) : DocumentError → String
  | .notToml => "TOML parse error\n"
  | .fault none f => f.message ++ "\n"
  | .fault (some place) f => Text.excerpt text place.start place.stop ++ f.message ++ "\n"
  | .spinOverflow => "the spin time is out of range\n"

end KeyedLocks.Policy
