/-!
# Binary floating point numbers of 64 bits

A finite number is a sign, a mantissa below 2^53 and a power of two. `ofDecimal` gives the number
nearest to a decimal, a tie going to the even mantissa. `shortest` gives the fewest decimal digits
that still lie in the interval of reals rounding to the number, of those the nearest, and of two
equally near the larger. `render` writes them positionally, always with a fraction. All of it is
exact arithmetic on `Nat`.
-/

namespace KeyedLocks

inductive Binary64 where
  /-- The number `mantissa * 2 ^ exponent`, with its sign. -/
  | finite (negative : Bool) (mantissa : Nat) (exponent : Int)
  | infinite (negative : Bool)
  | nan
deriving Repr, DecidableEq

namespace Binary64

def leastExponent : Int := -1074

def greatestExponent : Int := 971

/-- The least mantissa of 53 binary digits. -/
def leastNormal : Nat := 4503599627370496

/-- The quotient rounded to the nearest integer, a tie to the even one. -/
def roundDiv (n d : Nat) : Nat :=
  let q := n / d
  let r := n % d
  if 2 * r < d then q else if d < 2 * r then q + 1 else q + q % 2

/-- Numerator and denominator of `n * b ^ k`. -/
def scaled (n b : Nat) (k : Int) : Nat × Nat :=
  if 0 ≤ k then (n * b.pow k.toNat, 1) else (n, b.pow (-k).toNat)

def decimalLength (n : Nat) : Nat := (Nat.toDigits 10 n).length

/-- The number nearest to the positive quotient `n / d`. -/
def ofQuotient (negative : Bool) (n d : Nat) : Binary64 :=
  let top : Int := (n.log2 : Int) - d.log2
  let (p, q) := scaled d 2 top
  let e := max leastExponent ((if p ≤ n * q then top else top - 1) - 52)
  let (p, q) := scaled d 2 e
  let m := roundDiv (n * q) p
  let (m, e) := if m = 2 * leastNormal then (leastNormal, e + 1) else (m, e)
  if greatestExponent < e then .infinite negative else .finite negative m e

/-- The number nearest to `digits * 10 ^ scale`. Magnitudes far out of range are not computed. -/
def ofDecimal (negative : Bool) (digits : Nat) (scale : Int) : Binary64 :=
  let length : Int := decimalLength digits + scale
  if digits = 0 ∨ length < -330 then .finite negative 0 leastExponent
  else if 310 < length then .infinite negative
  else
    let (n, d) := scaled digits 10 scale
    ofQuotient negative n d

/-- `floor (log10 (n / d))` of a positive quotient. -/
def decimalExponent (n d : Nat) : Int :=
  let q : Int := (decimalLength n : Int) - decimalLength d
  let (p, s) := scaled d 10 q
  if p ≤ n * s then q else q - 1

/-- The interval of reals that round to `m * 2 ^ e`, in units of `2 ^ (e - 2)`: its ends, which
belong to it if the mantissa is even. -/
def interval (m : Nat) (e : Int) : Nat × Nat :=
  (if m = leastNormal ∧ leastExponent < e then 4 * m - 1 else 4 * m - 2, 4 * m + 2)

/-- Whether `c * 10 ^ p` rounds to `m * 2 ^ e`. -/
def roundsTo (m : Nat) (e : Int) (c : Nat) (p : Int) : Bool :=
  let (lo, hi) := interval m e
  let (u, d) := scaled 1 2 (e - 2)
  let (n, s) := scaled c 10 p
  if m % 2 = 0 then lo * u * s ≤ n * d && n * d ≤ hi * u * s
  else lo * u * s < n * d && n * d < hi * u * s

/-- The point of the grid `10 ^ p` next to `m * 2 ^ e` that rounds to it: the nearer one if both
do, and the upper one if both are equally near. -/
def gridPoint? (m : Nat) (e p : Int) : Option Nat :=
  let (u, d) := scaled m 2 e
  let (t, s) := scaled 1 10 p
  let c := u * s / (d * t)
  let below := roundsTo m e c p
  let above := roundsTo m e (c + 1) p
  let twice := 2 * (u * s % (d * t))
  if below ∧ (¬ above ∨ twice < d * t) then some c
  else if above then some (c + 1)
  else none

/-- The first of the grids with 1, 2, … digits that has a point in the interval. A power of ten
lies on the grid below it with one digit more, a zero, which is taken off. -/
def shortestFrom (m : Nat) (e q : Int) (k : Nat) : Nat → Nat × Int
  | 0 => (m, e)
  | fuel + 1 =>
    match gridPoint? m e (q - k) with
    | some c => if c % 10 = 0 then (c / 10, q - k + 1) else (c, q - k)
    | none => shortestFrom m e q (k + 1) fuel

/-- Digits and power of ten of the shortest decimal that rounds to `m * 2 ^ e`; 17 digits always
suffice. -/
def shortest (m : Nat) (e : Int) : Nat × Int :=
  let (n, d) := scaled m 2 e
  shortestFrom m e (decimalExponent n d) 0 18

/-- `c * 10 ^ p` in positional notation, with a fraction of one digit at least. -/
def positional (c : Nat) (p : Int) : String :=
  let digits := Nat.toDigits 10 c
  if 0 ≤ p then String.ofList (digits ++ List.replicate p.toNat '0') ++ ".0"
  else
    let places := (-p).toNat
    let padded := List.replicate (places + 1 - digits.length) '0' ++ digits
    let whole := padded.length - places
    String.ofList (padded.take whole) ++ "." ++ String.ofList (padded.drop whole)

def render : Binary64 → String
  | .nan => "NaN"
  | .infinite negative => if negative then "-inf" else "inf"
  | .finite negative m e =>
    let text := if m = 0 then "0.0" else let (c, p) := shortest m e; positional c p
    if negative then "-" ++ text else text

end Binary64

end KeyedLocks
