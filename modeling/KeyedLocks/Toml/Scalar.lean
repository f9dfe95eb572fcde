import KeyedLocks.Toml.Item

/-!
# TOML strings, numbers and moments

Each reader takes the text from its first character on and gives what it read and the rest, or
`none`. Numbers and moments are longest matches; what must not follow them is the business of the
caller, who wants the end of a line, a comma or a bracket.
-/

namespace KeyedLocks.Toml

abbrev Reader (α : Type) := List Char → Option (α × List Char)

def isWs (c : Char) : Bool := c == ' ' || c == '\t'

def skipWs (cs : List Char) : List Char := cs.dropWhile isWs

/-- Characters of a comment: the tab and everything that is no control character. -/
def isComment (c : Char) : Bool :=
  c == '\t' || (' ' ≤ c && c ≤ '~') || '\x80' ≤ c

/-- A line feed, or a carriage return and a line feed. -/
def newline? : List Char → Option (List Char)
  | '\n' :: cs => some cs
  | '\r' :: '\n' :: cs => some cs
  | _ => none

def hexValue (c : Char) : Option Nat :=
  if c.isDigit then some (c.toNat - '0'.toNat)
  else if 'a' ≤ c ∧ c ≤ 'f' then some (c.toNat - 'a'.toNat + 10)
  else if 'A' ≤ c ∧ c ≤ 'F' then some (c.toNat - 'A'.toNat + 10)
  else none

/-- The character of a code point in hexadecimal digits. -/
def charOfHex (digits : List Char) : Option Char := do
  let n ← digits.foldlM (fun n c => (hexValue c).map (16 * n + ·)) 0
  if n.isValidChar then some (Char.ofNat n) else none

/-- The character a backslash and a letter stand for. -/
def simpleEscape : Char → Option Char
  | 'b' => some '\x08'
  | 't' => some '\t'
  | 'n' => some '\n'
  | 'f' => some '\x0c'
  | 'r' => some '\r'
  | '"' => some '"'
  | '\\' => some '\\'
  | _ => none

/-! ## Strings -/

/-- A string between double quotes, after the first of them. -/
def basicBody : Reader (List Char)
  | [] => none
  | '"' :: cs => some ([], cs)
  | '\\' :: 'u' :: a :: b :: c :: d :: cs => do
    let x ← charOfHex [a, b, c, d]
    let (s, cs) ← basicBody cs
    some (x :: s, cs)
  | '\\' :: 'U' :: a :: b :: c :: d :: e :: f :: g :: h :: cs => do
    let x ← charOfHex [a, b, c, d, e, f, g, h]
    let (s, cs) ← basicBody cs
    some (x :: s, cs)
  | '\\' :: a :: cs => do
    let x ← simpleEscape a
    let (s, cs) ← basicBody cs
    some (x :: s, cs)
  | c :: cs =>
    if isComment c && c != '\\' then do
      let (s, cs) ← basicBody cs
      some (c :: s, cs)
    else none

/-- A string between single quotes, after the first of them. -/
def literalBody : Reader (List Char)
  | [] => none
  | '\'' :: cs => some ([], cs)
  | c :: cs =>
    if isComment c then do
      let (s, cs) ← literalBody cs
      some (c :: s, cs)
    else none

/-- A backslash that ends its line: blanks, then a line end. -/
def endsLine (cs : List Char) : Bool := (newline? (skipWs cs)).isSome

/-- A string between three double quotes, after the first three. Up to two quotes may stand before
the last three. After a backslash that ends its line, blanks and line ends are skipped. -/
def basicBodyLines (skipping : Bool) : Reader (List Char)
  | [] => none
  | '"' :: '"' :: '"' :: '"' :: '"' :: cs => some (['"', '"'], cs)
  | '"' :: '"' :: '"' :: '"' :: cs => some (['"'], cs)
  | '"' :: '"' :: '"' :: cs => some ([], cs)
  | '\r' :: '\n' :: cs => do
    let (s, cs) ← basicBodyLines skipping cs
    some (if skipping then s else '\n' :: s, cs)
  | '\n' :: cs => do
    let (s, cs) ← basicBodyLines skipping cs
    some (if skipping then s else '\n' :: s, cs)
  | '\\' :: 'u' :: a :: b :: c :: d :: cs => do
    let x ← charOfHex [a, b, c, d]
    let (s, cs) ← basicBodyLines false cs
    some (x :: s, cs)
  | '\\' :: 'U' :: a :: b :: c :: d :: e :: f :: g :: h :: cs => do
    let x ← charOfHex [a, b, c, d, e, f, g, h]
    let (s, cs) ← basicBodyLines false cs
    some (x :: s, cs)
  | '\\' :: a :: cs =>
    if endsLine (a :: cs) then basicBodyLines true (a :: cs)
    else do
      let x ← simpleEscape a
      let (s, cs) ← basicBodyLines false cs
      some (x :: s, cs)
  | c :: cs =>
    if skipping && isWs c then basicBodyLines true cs
    else if isComment c && c != '\\' then do
      let (s, cs) ← basicBodyLines false cs
      some (c :: s, cs)
    else none

/-- A string between three single quotes, after the first three. -/
def literalBodyLines : Reader (List Char)
  | [] => none
  | '\'' :: '\'' :: '\'' :: '\'' :: '\'' :: cs => some (['\'', '\''], cs)
  | '\'' :: '\'' :: '\'' :: '\'' :: cs => some (['\''], cs)
  | '\'' :: '\'' :: '\'' :: cs => some ([], cs)
  | '\r' :: '\n' :: cs => do
    let (s, cs) ← literalBodyLines cs
    some ('\n' :: s, cs)
  | c :: cs =>
    if isComment c || c == '\n' then do
      let (s, cs) ← literalBodyLines cs
      some (c :: s, cs)
    else none

/-- A string on one line, either kind of quotes. -/
def lineString : Reader String
  | '"' :: cs => (basicBody cs).map fun (s, cs) => (String.ofList s, cs)
  | '\'' :: cs => (literalBody cs).map fun (s, cs) => (String.ofList s, cs)
  | _ => none

/-- A line end right after the opening quotes does not count. -/
def dropNewline (cs : List Char) : List Char := (newline? cs).getD cs

def string : Reader String
  | '"' :: '"' :: '"' :: cs =>
    (basicBodyLines false (dropNewline cs)).map fun (s, cs) => (String.ofList s, cs)
  | '\'' :: '\'' :: '\'' :: cs =>
    (literalBodyLines (dropNewline cs)).map fun (s, cs) => (String.ofList s, cs)
  | cs => lineString cs

/-! ## Numbers -/

/-- Digits, with single underscores between them. -/
def digits (isDigit : Char → Bool) : Reader (List Char)
  | [] => none
  | c :: '_' :: cs =>
    if isDigit c then
      match digits isDigit cs with
      | some (ds, rest) => some (c :: ds, rest)
      | none => some ([c], '_' :: cs)
    else none
  | c :: cs =>
    if isDigit c then
      match digits isDigit cs with
      | some (ds, rest) => some (c :: ds, rest)
      | none => some ([c], cs)
    else none

/-- The number written in a base. -/
def numeral (base : Nat) (ds : List Char) : Nat :=
  ds.foldl (fun n c => base * n + (hexValue c).getD 0) 0

def sign : List Char → Bool × List Char
  | '+' :: cs => (false, cs)
  | '-' :: cs => (true, cs)
  | cs => (false, cs)

/-- The digits of a decimal integer; a leading zero stands alone. -/
def decimalDigits : Reader (List Char)
  | '0' :: cs => some (['0'], cs)
  | cs => digits Char.isDigit cs

/-- An integer that fits 64 bits. -/
def word (n : Int) : Option Int64 :=
  if Int64.minValue.toInt ≤ n ∧ n ≤ Int64.maxValue.toInt then some (Int64.ofInt n) else none

def based (base : Nat) (isDigit : Char → Bool) (cs : List Char) : Option (Int64 × List Char) := do
  let (ds, rest) ← digits isDigit cs
  let n ← word (numeral base ds)
  some (n, rest)

def integer : Reader Int64
  | '0' :: 'x' :: cs => based 16 (fun c => (hexValue c).isSome) cs
  | '0' :: 'o' :: cs => based 8 (fun c => '0' ≤ c && c ≤ '7') cs
  | '0' :: 'b' :: cs => based 2 (fun c => c == '0' || c == '1') cs
  | cs => do
    let (negative, cs) := sign cs
    let (ds, rest) ← decimalDigits cs
    let n ← word (if negative then -numeral 10 ds else numeral 10 ds)
    some (n, rest)

def fraction? : List Char → Option (List Char × List Char)
  | '.' :: cs => digits Char.isDigit cs
  | _ => none

/-- The power of ten after `e`. -/
def exponent? : List Char → Option (Int × List Char)
  | c :: cs =>
    if c == 'e' || c == 'E' then do
      let (negative, cs) := sign cs
      let (ds, rest) ← digits Char.isDigit cs
      some (if negative then -numeral 10 ds else numeral 10 ds, rest)
    else none
  | [] => none

/-- `inf` or `nan`, after the sign. -/
def special? (negative : Bool) : List Char → Option (Binary64 × List Char)
  | 'i' :: 'n' :: 'f' :: cs => some (.infinite negative, cs)
  | 'n' :: 'a' :: 'n' :: cs => some (.nan, cs)
  | _ => none

/-- A number with a fraction, an exponent or both. One that rounds to positive infinity is
refused. -/
def decimalFloat (cs : List Char) : Option (Binary64 × List Char) := do
  let (negative, cs) := sign cs
  let (whole, cs) ← decimalDigits cs
  let (places, cs) ←
    match fraction? cs with
    | some (places, cs) => some (places, cs)
    | none => if (exponent? cs).isSome then some ([], cs) else none
  let (power, cs) := (exponent? cs).getD (0, cs)
  let x := Binary64.ofDecimal negative (numeral 10 (whole ++ places)) (power - places.length)
  if x = .infinite false then none else some (x, cs)

def float (cs : List Char) : Option (Binary64 × List Char) :=
  (decimalFloat cs).or (special? (sign cs).1 (sign cs).2)

/-! ## Dates and times -/

/-- So many digits, with a value between two bounds. -/
def field (count lo hi : Nat) (cs : List Char) : Option (Nat × List Char) :=
  let ds := cs.take count
  let n := numeral 10 ds
  if ds.length = count ∧ ds.all Char.isDigit ∧ lo ≤ n ∧ n ≤ hi then some (n, cs.drop count)
  else none

def mark (c : Char) : List Char → Option (List Char)
  | [] => none
  | d :: cs => if d = c then some cs else none

def daysOfMonth (year month : Nat) : Nat :=
  if month = 2 then if year % 4 = 0 ∧ (year % 100 ≠ 0 ∨ year % 400 = 0) then 29 else 28
  else if month = 4 ∨ month = 6 ∨ month = 9 ∨ month = 11 then 30
  else 31

def date? (cs : List Char) : Option (List Char) := do
  let (year, cs) ← field 4 0 9999 cs
  let cs ← mark '-' cs
  let (month, cs) ← field 2 1 12 cs
  let cs ← mark '-' cs
  let (_, cs) ← field 2 1 (daysOfMonth year month) cs
  some cs

/-- Hours, minutes and seconds, a leap second allowed, and a fraction of any length. -/
def time? (cs : List Char) : Option (List Char) := do
  let (_, cs) ← field 2 0 23 cs
  let cs ← mark ':' cs
  let (_, cs) ← field 2 0 59 cs
  let cs ← mark ':' cs
  let (_, cs) ← field 2 0 60 cs
  match cs with
  | '.' :: c :: rest => if c.isDigit then some (rest.dropWhile Char.isDigit) else some cs
  | _ => some cs

/-- `Z`, or hours and minutes with a sign. -/
def offset? : List Char → Option (List Char)
  | [] => none
  | c :: cs =>
    if c == 'Z' || c == 'z' then some cs
    else if c == '+' || c == '-' then do
      let (_, cs) ← field 2 0 23 cs
      let cs ← mark ':' cs
      let (_, cs) ← field 2 0 59 cs
      some cs
    else none

/-- The time after a date, and its offset. -/
def timeOfDay? : List Char → Option (List Char)
  | [] => none
  | c :: cs =>
    if c == 'T' || c == 't' || c == ' ' then (time? cs).map fun cs => (offset? cs).getD cs else none

def moment (cs : List Char) : Option (List Char) :=
  match date? cs with
  | some cs => some ((timeOfDay? cs).getD cs)
  | none => time? cs

end KeyedLocks.Toml
