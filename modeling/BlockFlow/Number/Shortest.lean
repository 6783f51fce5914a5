import BlockFlow.Number.Binary64

/-!
# Shortest decimal text of a number

A number is written with the fewest decimal digits that are rounded back to it; of two such
decimals the nearer one is taken, and in a tie the one with an even last digit.

1. `decimal`: those digits with their power of ten.
2. `Layout`, `render`: where the decimal point and the exponent mark go.
-/

namespace BlockFlow.Binary64

open Magnitude (tenTo)

/-- Whether `a * 10 ^ p` is at most `b * 2 ^ q`. -/
def leScaled (a : Nat) (p : Int) (b : Nat) (q : Int) : Bool :=
  (a * tenTo p.toNat) <<< (-q).toNat ≤ (b * tenTo (-p).toNat) <<< q.toNat

/-- Whether `a * 10 ^ p` equals `b * 2 ^ q`. -/
def eqScaled (a : Nat) (p : Int) (b : Nat) (q : Int) : Bool :=
  (a * tenTo p.toNat) <<< (-q).toNat = (b * tenTo (-p).toNat) <<< q.toNat

/-- Whether the decimal `a * 10 ^ p` is rounded to the magnitude `x`. Bounds are in quarters of its
last place: half a place up, and down half a place or, below a power of two, a quarter. -/
def readsBack (x : Magnitude) (a : Nat) (p : Int) : Bool :=
  let q := x.exponent - 2
  let below :=
    if x.mantissa = Magnitude.leastFull && x.exponent != Magnitude.minExponent then 1 else 2
  let lower := 4 * x.mantissa - below
  let upper := 4 * x.mantissa + 2
  let inside := !leScaled a p lower q && leScaled a p upper q && !eqScaled a p upper q
  let onEnd := eqScaled a p lower q || eqScaled a p upper q
  inside || (onEnd && x.mantissa % 2 = 0)

/-- The greatest `p` with `10 ^ p ≤ x`, looked for upwards from a bound below it. -/
def leadingPower (x : Magnitude) : Int :=
  let start := ((x.mantissa.log2 : Int) + x.exponent) * 30102 / 100000 - 1
  let rec climb : Nat → Int → Int
    | 0, p => p
    | n + 1, p => if leScaled 1 (p + 1) x.mantissa x.exponent then climb n (p + 1) else p
  climb 8 start

/-- `⌊x / 10 ^ p⌋`. -/
def floorAt (x : Magnitude) (p : Int) : Nat :=
  (x.mantissa * tenTo (-p).toNat) <<< x.exponent.toNat / tenTo p.toNat <<< (-x.exponent).toNat

/-- The decimal of the grid `10 ^ p` that is rounded to `x`, the nearest if there are several. -/
def onGrid (x : Magnitude) (p : Int) : Option Nat :=
  let a := floorAt x p
  match readsBack x a p, readsBack x (a + 1) p with
  | true, false => some a
  | false, true => some (a + 1)
  | false, false => none
  | true, true =>
    -- the middle of the two candidates, against the magnitude
    if eqScaled (2 * a + 1) p (2 * x.mantissa) x.exponent then some (a + a % 2)
    else if leScaled (2 * a + 1) p (2 * x.mantissa) x.exponent then some (a + 1) else some a

/-- The first grid of at most `n` further ones, each ten times finer, that has a decimal. -/
def firstGrid (x : Magnitude) : Nat → Int → Nat × Int
  | 0, p => (floorAt x p, p)
  | n + 1, p =>
    match onGrid x p with
    | some a => (a, p)
    | none => firstGrid x n (p - 1)

/-- A decimal without the zeros at its end. -/
def stripZeros : Nat → Nat → Int → Nat × Int
  | 0, a, p => (a, p)
  | n + 1, a, p => if a % 10 = 0 && a != 0 then stripZeros n (a / 10) (p + 1) else (a, p)

/-- The shortest decimal of a magnitude that is not zero: a significand and a power of ten. -/
def decimal (x : Magnitude) : Nat × Int :=
  let (a, p) := firstGrid x 17 (leadingPower x)
  stripZeros 20 a p

/-- The choices that a format of decimals makes. -/
structure Layout where
  /-- The most digits before the point of a number written without an exponent. -/
  maxWhole : Int
  /-- The most zeros right after the point of such a number. -/
  maxZeros : Int
  /-- What follows a whole number. -/
  wholeMark : List Char
  /-- What stands before an exponent, which always has a sign. -/
  exponentMark : Char

/-- A number of digits with the point after the first `point` of them. -/
def place (l : Layout) (digits : List Char) (point : Int) : List Char :=
  let n : Int := digits.length
  if n ≤ point ∧ point ≤ l.maxWhole then
    digits ++ List.replicate (point - n).toNat '0' ++ l.wholeMark
  else if 0 < point ∧ point ≤ l.maxWhole then
    digits.take point.toNat ++ '.' :: digits.drop point.toNat
  else if -l.maxZeros ≤ point ∧ point ≤ 0 then
    '0' :: '.' :: List.replicate (-point).toNat '0' ++ digits
  else
    let power := point - 1
    let sign := if power < 0 then '-' else '+'
    let mark := l.exponentMark :: sign :: Nat.toDigits 10 power.natAbs
    match digits with
    | d :: e :: r => d :: '.' :: e :: r ++ mark
    | ds => ds ++ mark

def render (l : Layout) (x : Binary64) : List Char :=
  let sign := if x.negative then ['-'] else []
  if x.magnitude.mantissa = 0 then sign ++ '0' :: l.wholeMark
  else
    let (a, p) := decimal x.magnitude
    let digits := Nat.toDigits 10 a
    sign ++ place l digits (digits.length + p)

end BlockFlow.Binary64
