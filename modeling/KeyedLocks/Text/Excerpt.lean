/-!
# Excerpts of a text

`excerpt` shows the line a range of bytes starts in, under its number, with carets below the range.
Lines end at a line feed only. The column counts characters, the carets bytes: as many as the range
has, at most to the end of the line, one at least.
-/

namespace KeyedLocks.Text

/-- The characters that start before byte `start`. -/
def before (start : Nat) : List Char → List Char
  | [] => []
  | c :: cs => if start = 0 then [] else c :: before (start - c.utf8Size) cs

/-- Line and column, both from zero, of the character at byte `start`. -/
def position (text : String) (start : Nat) : Nat × Nat :=
  let cs := before start text.toList
  (cs.count '\n', (cs.reverse.takeWhile (· ≠ '\n')).length)

/-- Line `n` of a text, counted from zero. -/
def lineAt (text : String) (n : Nat) : String := (text.splitOn "\n").getD n ""

def blanks (n : Nat) : String := String.ofList (List.replicate n ' ')

def excerpt (text : String) (start stop : Nat) : String :=
  let (line, column) := position text start
  let number := toString (line + 1)
  let content := lineAt text line
  let carets := max 1 (min (stop - start) (content.utf8ByteSize - column))
  let gutter := blanks (number.length + 1) ++ "|"
  s!"TOML parse error at line {number}, column {column + 1}\n{gutter}\n{number} | {content}\n" ++
    gutter ++ blanks (column + 1) ++ String.ofList (List.replicate carets '^') ++ "\n"

end KeyedLocks.Text
