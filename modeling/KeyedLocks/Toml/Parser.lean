import KeyedLocks.Toml.Scalar

/-!
# Reading TOML documents

`parse` gives the entries of the root table, or `none` for a text that is no TOML: a fault of the
grammar, a number or a moment out of range, or a key that is defined twice. Keys of 80 parts and
values nested 80 deep are refused.
-/

namespace KeyedLocks.Toml

/-- Arrays and inline tables may stand inside each other this often. -/
def nestingLimit : Nat := 79

def byteLength (cs : List Char) : Nat := cs.foldl (fun n c => n + c.utf8Size) 0

/-- The bytes from where `cs` starts to where `rest` does, in a text of `size` bytes. -/
def spanTo (size : Nat) (cs rest : List Char) : Span :=
  ⟨size - byteLength cs, size - byteLength rest⟩

/-! ## Keys -/

def isBare (c : Char) : Bool := c.isAlphanum || c == '_' || c == '-'

def simpleKey : Reader String
  | [] => none
  | c :: cs =>
    if c == '"' || c == '\'' then lineString (c :: cs)
    else if isBare c then
      some (String.ofList ((c :: cs).takeWhile isBare), (c :: cs).dropWhile isBare)
    else none

/-- Simple keys with points between them, blanks around each: the path and the last key. -/
def dottedKey (size : Nat) : Nat → Reader (List Key × Key)
  | 0, _ => none
  | fuel + 1, cs => do
    let cs := skipWs cs
    let (name, rest) ← simpleKey cs
    let key : Key := ⟨name, spanTo size cs rest⟩
    match skipWs rest with
    | '.' :: rest => do
      let ((path, last), rest) ← dottedKey size fuel rest
      some ((key :: path, last), rest)
    | rest => some (([], key), rest)

def key (size : Nat) (cs : List Char) : Option ((List Key × Key) × List Char) := do
  let ((path, last), rest) ← dottedKey size cs.length cs
  if path.length < nestingLimit then some ((path, last), rest) else none

/-! ## Values -/

/-- Blanks, line ends and comments, each of which ends with its line. -/
def skipLines (comment : Bool) : List Char → Option (List Char)
  | [] => if comment then none else some []
  | '\r' :: '\n' :: cs => skipLines false cs
  | c :: cs =>
    if c == '\n' then skipLines false cs
    else if comment then if isComment c then skipLines true cs else none
    else if isWs c then skipLines false cs
    else if c == '#' then skipLines true cs
    else some (c :: cs)

/-- The items of an array, after its opening bracket or a comma. -/
def arrayItems (item : Reader Item) : Nat → Reader (List Item)
  | 0, _ => none
  | fuel + 1, cs => do
    match ← skipLines false cs with
    | ']' :: rest => some ([], rest)
    | cs => do
      let (x, rest) ← item cs
      match ← skipLines false rest with
      | ',' :: rest => do
        let (xs, rest) ← arrayItems item fuel rest
        some (x :: xs, rest)
      | ']' :: rest => some ([x], rest)
      | _ => none

/-- The pairs of an inline table, after its opening brace or a comma, put into `es`. -/
def inlinePairs (size : Nat) (item : Reader Item) : Nat → Entries → Reader Entries
  | 0, _, _ => none
  | fuel + 1, es, cs => do
    let ((path, k), rest) ← key size cs
    let rest := skipWs (← mark '=' rest)
    let (x, after) ← item rest
    let es ← es.assign path k (spanTo size rest after) x
    match skipWs after with
    | ',' :: rest => inlinePairs size item fuel es rest
    | '}' :: rest => some (es, rest)
    | _ => none

def boolean : Reader Bool
  | 't' :: 'r' :: 'u' :: 'e' :: cs => some (true, cs)
  | 'f' :: 'a' :: 'l' :: 's' :: 'e' :: cs => some (false, cs)
  | _ => none

/-- A value that holds no other. -/
def scalar (cs : List Char) : Option (Item × List Char) :=
  match cs.head? with
  | none => none
  | some c =>
    if c == '"' || c == '\'' then (string cs).map fun (s, rest) => (.string s, rest)
    else if c == 't' || c == 'f' then (boolean cs).map fun (b, rest) => (.boolean b, rest)
    else
      ((moment cs).map fun rest => (.moment, rest)).or
        (((float cs).map fun (x, rest) => (.float x, rest)).or
          ((integer cs).map fun (n, rest) => (.integer n, rest)))

/-- A value with so many arrays and inline tables inside each other at most. -/
def value (size : Nat) : Nat → Reader Item
  | depth + 1, '[' :: cs =>
    (arrayItems (value size depth) (cs.length + 1) cs).map fun (xs, rest) => (.array xs, rest)
  | depth + 1, '{' :: cs =>
    match skipWs cs with
    | '}' :: rest => some (.table .inline [], rest)
    | cs =>
      (inlinePairs size (value size depth) (cs.length + 1) [] cs).map fun (es, rest) =>
        (.table .inline es, rest)
  | _, cs => scalar cs

/-! ## Statements -/

/-- Blanks and a comment up to the end of the line or the text. -/
def lineEnd (cs : List Char) : Option (List Char) :=
  let cs := match skipWs cs with
    | '#' :: rest => rest.dropWhile isComment
    | rest => rest
  if cs.isEmpty then some [] else newline? cs

/-- What the statements so far have made, and the header the next ones stand under, if any. -/
structure Draft where
  root : Entries := []
  header : Option (List Key × Key) := none

/-- `[a.b]` or `[[a.b]]`. -/
def headerLine (size : Nat) (d : Draft) (cs : List Char) : Option (Draft × List Char) := do
  match cs with
  | '[' :: '[' :: inner => do
    let ((path, k), rest) ← key size inner
    let rest ← mark ']' (← mark ']' rest)
    let root ← d.root.openArray path k (spanTo size cs rest)
    some (⟨root, some (path, k)⟩, ← lineEnd rest)
  | '[' :: inner => do
    let ((path, k), rest) ← key size inner
    let rest ← mark ']' rest
    let root ← d.root.openTable path k (spanTo size cs rest)
    some (⟨root, some (path, k)⟩, ← lineEnd rest)
  | _ => none

/-- `a.b = value`. -/
def keyLine (size : Nat) (d : Draft) (cs : List Char) : Option (Draft × List Char) := do
  let ((path, k), rest) ← key size cs
  let rest := skipWs (← mark '=' rest)
  let (x, after) ← value size nestingLimit rest
  -- A dotted key makes tables at the parts of its path; the value has its own place.
  let place := spanTo size rest after
  let root ← match d.header with
    | none => d.root.assign path k place x
    | some (above, own) => d.root.assignBelow above own path k place x
  some ({ d with root }, ← lineEnd after)

def statements (size : Nat) : Nat → Draft → List Char → Option Draft
  | 0, _, _ => none
  | fuel + 1, d, cs =>
    match skipWs cs with
    | [] => some d
    | c :: cs => do
      let (d, rest) ←
        if c == '#' || c == '\n' || c == '\r' then (lineEnd (c :: cs)).map fun rest => (d, rest)
        else if c == '[' then headerLine size d (c :: cs)
        else keyLine size d (c :: cs)
      statements size fuel d rest

/-- A mark of byte order may stand in front. -/
def dropMark : List Char → List Char
  | '\uFEFF' :: cs => cs
  | cs => cs

/-- The entries of the root table of a document. -/
def parse (text : String) : Option Entries :=
  (statements text.utf8ByteSize (text.toList.length + 1) {} (dropMark text.toList)).map (·.root)

end KeyedLocks.Toml
