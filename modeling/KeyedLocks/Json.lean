/-!
# JSON objects in writing

A `Record` is a flat object whose fields keep their order. `compact` writes it without blanks,
`pretty` one field a line with two blanks in front.
-/

namespace KeyedLocks.Json

/-- A number, a text, or a place for a number that is not known beforehand. -/
inductive Field where
  | number (n : Int)
  | text (s : String)
  | varying
deriving Repr, DecidableEq

abbrev Record := List (String × Field)

def hexDigit (n : Nat) : Char := (Nat.toDigits 16 n).headD '0'

def escapeChar (c : Char) : String :=
  if c = '"' then "\\\""
  else if c = '\\' then "\\\\"
  else if c = '\x08' then "\\b"
  else if c = '\x0c' then "\\f"
  else if c = '\n' then "\\n"
  else if c = '\r' then "\\r"
  else if c = '\t' then "\\t"
  else if c.toNat < 0x20 then
    "\\u00" ++ String.ofList [hexDigit (c.toNat / 16), hexDigit (c.toNat % 16)]
  else c.toString

def quoted (s : String) : String := "\"" ++ String.join (s.toList.map escapeChar) ++ "\""

def Field.render : Field → String
  | .number n => toString n
  | .text s => quoted s
  | .varying => "N"

def compact (r : Record) : String :=
  "\x7b" ++ ",".intercalate (r.map fun (name, f) => quoted name ++ ":" ++ f.render) ++ "\x7d"

def pretty (r : Record) : String :=
  "\x7b\n" ++ ",\n".intercalate (r.map fun (name, f) => "  " ++ quoted name ++ ": " ++ f.render) ++
    "\n\x7d"

end KeyedLocks.Json
