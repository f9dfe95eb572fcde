import KeyedLocks.Number.Binary64

/-!
# TOML documents

An `Item` is a value, a table or an array of tables. Entries of a table keep the order of the text
and the places of their keys and values. A table remembers how it was made, for that decides who
may add to it: `header` by its own `[x]`, `implied` by a header below it, `dotted` by a dotted key,
`inline` between braces.

`assign`, `openTable` and `openArray` are the statements of a document; each is refused (`none`)
when it would define something twice.
-/

namespace KeyedLocks.Toml

/-- A range of bytes of the text. -/
structure Span where
  start : Nat
  stop : Nat
deriving Repr, DecidableEq, Inhabited

structure Key where
  name : String
  span : Span
deriving Repr, DecidableEq, Inhabited

/-- How a table came to be. -/
inductive Origin where
  | header
  | implied
  | dotted
  | inline
deriving Repr, DecidableEq

inductive Item where
  | string (s : String)
  | integer (n : Int64)
  | float (x : Binary64)
  | boolean (b : Bool)
  /-- A date, a time or both. -/
  | moment
  | array (items : List Item)
  | table (origin : Origin) (entries : List (Key × Span × Item))
  /-- An array of tables, the latest last. -/
  | tables (elements : List (List (Key × Span × Item)))

/-- What stands under a key, and where. -/
abbrev Entry := Key × Span × Item

abbrev Entries := List Entry

namespace Entries

def find? (es : Entries) (name : String) : Option Entry := List.find? (·.1.name = name) es

/-- Put another item under a key that is there, with its places kept. -/
def replace (es : Entries) (name : String) (item : Item) : Entries :=
  es.map fun e => if e.1.name = name then (e.1, e.2.1, item) else e

def erase (es : Entries) (name : String) : Entries := es.filter (·.1.name ≠ name)

/-- Work on the table at the end of a path; `change` is told how that table was made. Tables that
are missing on the way are made as `made`, placed at their key. A dotted path does not enter a table
that has a header, and no path enters an inline table that is finished. -/
def change (made : Origin) (f : Origin → Entries → Option Entries) (origin : Origin) :
    List Key → Entries → Option Entries
  | [], es => f origin es
  | k :: path, es =>
    match es.find? k.name with
    | none => do
      let inner ← change made f made path []
      some (es ++ [(k, k.span, .table made inner)])
    | some (_, _, .table o inner) =>
      if o = .inline ∨ (made = .dotted ∧ o = .header) then none
      else do
        let inner ← change made f o path inner
        some (es.replace k.name (.table o inner))
    | some (_, _, .tables elements) =>
      match elements.getLast? with
      | none => none
      | some last => do
        let last ← change made f .header path last
        some (es.replace k.name (.tables (elements.dropLast ++ [last])))
    | some _ => none

/-- Put a value under a new key. -/
def insertNew (k : Key) (place : Span) (item : Item) (es : Entries) : Option Entries :=
  match es.find? k.name with
  | none => some (es ++ [(k, place, item)])
  | some _ => none

/-- `path.k = item` in a table. The tables on a dotted path have to be dotted themselves. -/
def assign (path : List Key) (k : Key) (place : Span) (item : Item) (es : Entries) :
    Option Entries :=
  change .dotted (fun o es => if path ≠ [] ∧ o ≠ .dotted then none else es.insertNew k place item)
    .header path es

/-- `[path.k]`. A table that so far was only implied is taken out and opened at the end. -/
def openTable (path : List Key) (k : Key) (place : Span) (es : Entries) : Option Entries :=
  change .implied (fun _ es =>
    match es.find? k.name with
    | none => some (es ++ [(k, place, .table .header [])])
    | some (_, _, .table .implied inner) =>
      some (es.erase k.name ++ [(k, place, .table .header inner)])
    | some _ => none) .header path es

/-- Let the place of what stands under a name reach to `stop`. -/
def stretch (name : String) (stop : Nat) (es : Entries) : Entries :=
  es.map fun e => if e.1.name = name then (e.1, ⟨e.2.1.start, stop⟩, e.2.2) else e

/-- `[[path.k]]`. The place of the array reaches from its first header to its last one. -/
def openArray (path : List Key) (k : Key) (place : Span) (es : Entries) : Option Entries :=
  change .implied (fun _ es =>
    match es.find? k.name with
    | none => some (es ++ [(k, place, .tables [[]])])
    | some (_, _, .tables elements) =>
      some ((es.replace k.name (.tables (elements ++ [[]]))).stretch k.name place.stop)
    | some _ => none) .header path es

/-- `path.k = item` below the header `[above.own]`, whose place reaches to its last value then. -/
def assignBelow (above : List Key) (own : Key) (path : List Key) (k : Key) (place : Span)
    (item : Item) (es : Entries) : Option Entries :=
  change .implied (fun _ es => do
    let es ← change .implied (fun _ es => es.assign path k place item) .header [own] es
    some (es.stretch own.name place.stop)) .header above es

end Entries

end KeyedLocks.Toml
