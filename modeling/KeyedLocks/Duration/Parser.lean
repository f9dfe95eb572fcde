import KeyedLocks.Duration.Basic
import KeyedLocks.Text.Blank

/-!
# Reading durations

A duration is the text `0`, or spans: a number, an optional fraction, a unit. Blanks may stand
among and after the digits and between spans; a unit ends at a digit or a blank. All intermediate
products and sums have to fit 64 bits. `Duration.parse` tells a text that is no duration
(`invalid`) from one whose last sum is a whole second too large (`overflow`): nanoseconds that come
to exactly one second are carried only after the check of the seconds.
-/

namespace KeyedLocks.Duration

open Text (isBlank)

/-- Why a text has no value as a duration. -/
inductive Fault where
  | invalid
  | overflow
deriving Repr, DecidableEq

/-- The units a span may have. -/
inductive TimeUnit where
  | nanosecond | microsecond | millisecond | second | minute | hour | day | week | month | year
deriving Repr, DecidableEq

namespace TimeUnit

/-- The names a unit goes by. -/
def names : TimeUnit → List String
  | nanosecond => ["nanos", "nsec", "ns"]
  | microsecond => ["usec", "us", "µs"]
  | millisecond => ["millis", "msec", "ms"]
  | second => ["seconds", "second", "secs", "sec", "s"]
  | minute => ["minutes", "minute", "min", "mins", "m"]
  | hour => ["hours", "hour", "hr", "hrs", "h"]
  | day => ["days", "day", "d"]
  | week => ["weeks", "week", "wk", "wks", "w"]
  | month => ["months", "month", "M"]
  | year => ["years", "year", "yr", "yrs", "y"]

def all : List TimeUnit :=
  [nanosecond, microsecond, millisecond, second, minute, hour, day, week, month, year]

def ofName? (name : String) : Option TimeUnit := all.find? (name ∈ ·.names)

/-- What one unit is worth: `(seconds, nanoseconds)`, one of them zero. -/
def worth : TimeUnit → Nat × Nat
  | nanosecond => (0, 1)
  | microsecond => (0, 1000)
  | millisecond => (0, 1000000)
  | second => (1, 0)
  | minute => (60, 0)
  | hour => (3600, 0)
  | day => (86400, 0)
  | week => (604800, 0)
  | month => (2630016, 0)
  | year => (31557600, 0)

/-- What a fraction of the unit is reckoned in: nanoseconds up to minutes, seconds from hours on,
nothing for nanoseconds. -/
def fractionWorth? : TimeUnit → Option (Nat × Nat)
  | nanosecond => none
  | second => some (0, 1000000000)
  | minute => some (0, 60000000000)
  | u => some u.worth

end TimeUnit

/-- A number that fits 64 bits. -/
def word (n : Nat) : Except Fault Nat := if n < UInt64.size then .ok n else .error .invalid

/-- Add seconds and nanoseconds. Nanoseconds above one second are carried before the seconds are
checked, exactly one second is carried after it. -/
def add (d : Duration) (secs nanos : Nat) : Except Fault Duration := do
  let n ← word (d.subsecNanos + nanos)
  let carry := if n > nanosPerSecond then n / nanosPerSecond else 0
  let _ ← word (d.seconds + secs + carry)
  if h : d.nanos + secs * nanosPerSecond + nanos < UInt64.size * nanosPerSecond then .ok ⟨_, h⟩
  else .error .overflow

def digitValue (c : Char) : Nat := c.toNat - '0'.toNat

def isUnitLetter (c : Char) : Bool := c.isAlpha || c == 'µ'

/-- Digits of a number so far `n`, blanks skipped, up to a letter, a point or the end. -/
def readNumber (n : Nat) : List Char → Except Fault (Nat × List Char)
  | [] => .ok (n, [])
  | c :: cs =>
    if c.isDigit then
      if n * 10 + digitValue c < UInt64.size then readNumber (n * 10 + digitValue c) cs
      else .error .invalid
    else if isBlank c then readNumber n cs
    else if isUnitLetter c || c == '.' then .ok (n, c :: cs)
    else .error .invalid

/-- Digits after the point, blanks skipped, up to a letter or the end: numerator and power of
ten. -/
def readFraction (numerator power : Nat) : List Char → Except Fault ((Nat × Nat) × List Char)
  | [] => if power = 1 then .error .invalid else .ok ((numerator, power), [])
  | c :: cs =>
    if c.isDigit then
      if power * 10 < UInt64.size ∧ numerator * 10 + digitValue c < UInt64.size then
        readFraction (numerator * 10 + digitValue c) (power * 10) cs
      else .error .invalid
    else if isBlank c then readFraction numerator power cs
    else if isUnitLetter c then
      if power = 1 then .error .invalid else .ok ((numerator, power), c :: cs)
    else .error .invalid

/-- The fraction that may follow a number. -/
def readFraction? : List Char → Except Fault (Option (Nat × Nat) × List Char)
  | '.' :: cs => (readFraction 0 1 cs).map fun (f, rest) => (some f, rest)
  | cs => .ok (none, cs)

/-- Add `n` units and a fraction of one. -/
def addUnits (d : Duration) (u : TimeUnit) (n : Nat) (fraction : Option (Nat × Nat)) :
    Except Fault Duration := do
  let secs ← word (n * u.worth.1)
  let nanos ← word (n * u.worth.2)
  let d ← d.add secs nanos
  match fraction with
  | none => .ok d
  | some (numerator, power) =>
    match u.fractionWorth? with
    | none => .error .invalid
    | some (s, ns) =>
      let secs ← word (numerator * s)
      let nanos ← word (numerator * ns)
      if secs % power = 0 ∧ nanos % power = 0 then d.add (secs / power) (nanos / power)
      else .error .invalid

/-- One span whose number starts with the digit `n`, and the text after its unit. -/
def readSpan (d : Duration) (n : Nat) (cs : List Char) : Except Fault (Duration × List Char) := do
  let (n, cs) ← readNumber n cs
  let (fraction, cs) ← readFraction? cs
  let rest := cs.dropWhile isUnitLetter
  if rest.head?.all fun c => c.isDigit || isBlank c then
    match TimeUnit.ofName? (String.ofList (cs.takeWhile isUnitLetter)) with
    | none => .error .invalid
    | some u =>
      let d ← d.addUnits u n fraction
      .ok (d, rest)
  else .error .invalid

theorem readNumber_length {n m : Nat} {cs rest : List Char} (h : readNumber n cs = .ok (m, rest)) :
    rest.length ≤ cs.length := by
  fun_induction readNumber n cs with
  | case1 => cases h; exact Nat.le_refl _
  | case2 _ _ _ _ _ ih => have := ih h; simp only [List.length_cons]; omega
  | case3 => cases h
  | case4 _ _ _ _ _ ih => have := ih h; simp only [List.length_cons]; omega
  | case5 => cases h; exact Nat.le_refl _
  | case6 => cases h

theorem readFraction_length {n p : Nat} {f : Nat × Nat} {cs rest : List Char}
    (h : readFraction n p cs = .ok (f, rest)) : rest.length ≤ cs.length := by
  fun_induction readFraction n p cs with
  | case1 => cases h
  | case2 => cases h; exact Nat.le_refl _
  | case3 _ _ _ _ _ _ ih => have := ih h; simp only [List.length_cons]; omega
  | case4 => cases h
  | case5 _ _ _ _ _ _ ih => have := ih h; simp only [List.length_cons]; omega
  | case6 => cases h
  | case7 => cases h; exact Nat.le_refl _
  | case8 => cases h

theorem readFraction?_length {f : Option (Nat × Nat)} {cs rest : List Char}
    (h : readFraction? cs = .ok (f, rest)) : rest.length ≤ cs.length := by
  unfold readFraction? at h
  split at h
  · next cs =>
    cases hf : readFraction 0 1 cs with
    | error e => rw [hf] at h; cases h
    | ok r =>
      rw [hf] at h
      cases h
      have := readFraction_length hf
      simp only [List.length_cons]
      omega
  · cases h; exact Nat.le_refl _

theorem readSpan_length {d e : Duration} {n : Nat} {cs rest : List Char}
    (h : readSpan d n cs = .ok (e, rest)) : rest.length ≤ cs.length := by
  unfold readSpan at h
  cases h1 : readNumber n cs with
  | error _ => rw [h1] at h; cases h
  | ok r1 =>
    obtain ⟨m, cs1⟩ := r1
    simp only [h1, bind, Except.bind] at h
    cases h2 : readFraction? cs1 with
    | error _ => rw [h2] at h; cases h
    | ok r2 =>
      obtain ⟨f, cs2⟩ := r2
      simp only [h2] at h
      split at h
      · split at h
        · cases h
        · split at h
          · cases h
          · cases h
            have := readNumber_length h1
            have := readFraction?_length h2
            have := (List.dropWhile_suffix isUnitLetter (l := cs2)).length_le
            omega
      · cases h

/-- The spans that follow, blanks before each; none are left at the end of the text. -/
def readSpans (d : Duration) (cs : List Char) : Except Fault Duration :=
  match _hcs : cs.dropWhile isBlank with
  | [] => .ok d
  | c :: rest =>
    if c.isDigit then
      match _hspan : readSpan d (digitValue c) rest with
      | .error e => .error e
      | .ok (d, rest') => readSpans d rest'
    else .error .invalid
termination_by cs.length
decreasing_by
  have h1 := (List.dropWhile_suffix isBlank (l := cs)).length_le
  have h2 := readSpan_length _hspan
  rw [_hcs, List.length_cons] at h1
  omega

def parse (text : String) : Except Fault Duration :=
  if text = "0" then .ok zero
  else if text.toList.all isBlank then .error .invalid
  else readSpans zero text.toList

end KeyedLocks.Duration
