import KeyedLocks.Duration.Basic

/-!
# Durations in words

`Duration.render` writes the non-zero parts of a duration from years down to nanoseconds, with a
blank between them, and `0s` for nothing at all. A month is 30.44 days and a year 365.25 days.
-/

namespace KeyedLocks.Duration

def secondsPerYear : Nat := 31557600

def secondsPerMonth : Nat := 2630016

/-- A count with its unit; from two on the unit is in the plural. -/
def counted (n : Nat) (unit : String) : Nat × String := (n, if n > 1 then unit ++ "s" else unit)

/-- The parts of a duration, largest unit first, zeros included. -/
def parts (d : Duration) : List (Nat × String) :=
  let s := d.seconds
  let n := d.subsecNanos
  let inYear := s % secondsPerYear
  let inMonth := inYear % secondsPerMonth
  let inDay := inMonth % 86400
  [counted (s / secondsPerYear) "year", counted (inYear / secondsPerMonth) "month",
    counted (inMonth / 86400) "day", (inDay / 3600, "h"), (inDay % 3600 / 60, "m"),
    (inDay % 60, "s"), (n / 1000000, "ms"), (n / 1000 % 1000, "us"), (n % 1000, "ns")]

def render (d : Duration) : String :=
  if d.nanos = 0 then "0s"
  else " ".intercalate ((d.parts.filter (·.1 ≠ 0)).map fun (n, unit) => toString n ++ unit)

end KeyedLocks.Duration
