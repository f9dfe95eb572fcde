import KeyedLocks.FileTree
import KeyedLocks.Policy.Document

/-!
# Policies from files

`Policy.load` reads a policy document from a file. `PolicyError` is any reason why a policy could
not be had, with its message and, where another error lies below it, the message of that one.
-/

namespace KeyedLocks

inductive PolicyError where
  | limit (e : LimitError)
  /-- The text is no policy document. -/
  | document (text : String) (e : Policy.DocumentError)
  | unreadable (path : String) (e : FileError)

namespace PolicyError

/-- The message of the error below, if there is one. -/
def cause : PolicyError → Option String
  | .limit _ => none
  | .document text e => some (e.message text)
  | .unreadable _ e => some e.message

def message : PolicyError → String
  | .limit e => e.message
  | .document text e => "invalid backoff policy: " ++ e.message text
  | .unreadable path e => s!"failed to read backoff policy from {path}: {e.message}"

/-- Whether whatever asked for the policy cannot go on: the time to wait cannot be counted. -/
def isFatal : PolicyError → Bool
  | .document _ .spinOverflow => true
  | _ => false

end PolicyError

namespace Policy

/-- The policy of a text. -/
def read (text : String) : Except PolicyError Policy := (ofToml text).mapError (.document text)

/-- The policy in a file, given what reading the files gives. -/
def load (files : String → Except FileError String) (path : String) :
    Except PolicyError Policy := do
  let text ← (files path).mapError (.unreadable path)
  read text

end Policy

end KeyedLocks
