import KeyedLocks.Text.Shown

/-!
# Quoted text

`quote` puts a text between double quotes. Quotes and backslashes get a backslash, NUL, tab, line
feed and carriage return their letters, and a character that does not show, or attaches to the one
before it, its code point: `\u`, then the hexadecimal digits in braces.
-/

namespace KeyedLocks.Text

/-- The digits of `n` in base 16, without leading zeros. -/
def hexDigits (n : Nat) : String := String.ofList (Nat.toDigits 16 n)

def escapeChar (c : Char) : String :=
  if c = '\x00' then "\\0"
  else if c = '\t' then "\\t"
  else if c = '\n' then "\\n"
  else if c = '\r' then "\\r"
  else if c = '"' then "\\\""
  else if c = '\\' then "\\\\"
  else if isAttached c || !isShown c then "\\u\x7b" ++ hexDigits c.toNat ++ "\x7d"
  else c.toString

def quote (s : String) : String := "\"" ++ String.join (s.toList.map escapeChar) ++ "\""

end KeyedLocks.Text
