/-!
# Finite binary64 numbers

A number is a sign, a mantissa below `2 ^ 53` and a binary exponent from `-1074` to `971`; the
mantissa is at least `2 ^ 52` unless the exponent is the least one. Sums of digits and powers of ten
are brought to this form by exact arithmetic on naturals and one rounding, to the nearest number
and in a tie to an even mantissa.

1. `roundQuot`: the number nearest to a quotient.
2. `times`, `dividedBy`: rounded product and quotient of magnitudes.
3. `ofDecimal`: the number of a significand and a power of ten.
-/

namespace BlockFlow

/-- A magnitude `mantissa * 2 ^ exponent`. -/
structure Magnitude where
  /-- Below `2 ^ 53`. -/
  mantissa : Nat
  /-- From `-1074` to `971`. -/
  exponent : Int
  deriving Repr, DecidableEq

/-- A finite binary64 number. -/
structure Binary64 where
  /-- The sign, also of a zero. -/
  negative : Bool
  /-- The absolute value. -/
  magnitude : Magnitude
  deriving Repr, DecidableEq

namespace Magnitude

def minExponent : Int := -1074

def maxExponent : Int := 971

/-- The least mantissa of 53 bits, `2 ^ 52`. -/
def leastFull : Nat := 1 <<< 52

def tenTo (k : Nat) : Nat := Nat.pow 10 k

def zero : Magnitude := ⟨0, minExponent⟩

/-- `n / d` as a quotient of naturals whose value is `n / d / 2 ^ e`. -/
def shifted (n d : Nat) (e : Int) : Nat × Nat :=
  match e with
  | .ofNat k => (n, d <<< k)
  | .negSucc k => (n <<< (k + 1), d)

/-- The natural number nearest to `n / d`, the even one in a tie. -/
def roundNat (n d : Nat) : Nat :=
  let q := n / d
  let r := n % d
  if 2 * r < d then q else if 2 * r = d then q + q % 2 else q + 1

/-- The exponent at which the quotient `n / d` has a mantissa of 53 bits, or the least one. -/
def exponentOf (n d : Nat) : Int :=
  let e := (n.log2 : Int) - d.log2 - 52
  let s := shifted n d e
  max minExponent (if s.1 / s.2 < leastFull then e - 1 else e)

/-- The magnitude nearest to `n / d`; there is none if it is too large. -/
def roundQuot (n d : Nat) : Option Magnitude :=
  if n = 0 then some zero
  else
    let e := exponentOf n d
    let s := shifted n d e
    let m := roundNat s.1 s.2
    let x : Magnitude := if m = 2 * leastFull then ⟨leastFull, e + 1⟩ else ⟨m, e⟩
    if x.exponent ≤ maxExponent then some x else none

/-- The magnitude nearest to a natural number. -/
def ofNat (n : Nat) : Option Magnitude := roundQuot n 1

/-- The rounded product. -/
def times (x y : Magnitude) : Option Magnitude :=
  let s := shifted (x.mantissa * y.mantissa) 1 (-(x.exponent + y.exponent))
  roundQuot s.1 s.2

/-- The rounded quotient by a magnitude that is not zero. -/
def dividedBy (x y : Magnitude) : Option Magnitude :=
  let s := shifted x.mantissa y.mantissa (y.exponent - x.exponent)
  roundQuot s.1 s.2

/-- The greatest power of ten that is a number. -/
def maxTen : Nat := 308

/-- The magnitude nearest to a power of ten. -/
def ten (k : Nat) : Option Magnitude := ofNat (tenTo k)

/-- A magnitude scaled by a power of ten in at most `n + 1` steps of at most `10 ^ 308`, each of
them rounded. -/
def scale : Nat → Magnitude → Int → Option Magnitude
  | n, x, power =>
    if power.natAbs ≤ maxTen then do
      let t ← ten power.natAbs
      if 0 ≤ power then x.times t else x.dividedBy t
    else if x.mantissa = 0 then some x
    else if 0 ≤ power then none
    else
      match n with
      | 0 => some zero
      | n + 1 => do
        let t ← ten maxTen
        scale n (← x.dividedBy t) (power + maxTen)

end Magnitude

namespace Binary64

/-- The number with the given sign that a significand below `2 ^ 64` times a power of ten is rounded
to. The significand is rounded first and then scaled; two divisions by `10 ^ 308` leave nothing of
it. -/
def ofDecimal (negative : Bool) (significand : Nat) (power : Int) : Option Binary64 := do
  let x ← Magnitude.ofNat significand
  return ⟨negative, ← Magnitude.scale 2 x power⟩

end Binary64

end BlockFlow
