/-!
# Hexadecimal digits

Bytes are shown as two lower-case hexadecimal digits each; digits of either case are read.
-/

namespace BlockFlow.Text.Hex

def digit (n : Nat) : Char := Nat.digitChar n

/-- The value of a hexadecimal digit of either case. -/
def value? (c : Char) : Option Nat :=
  if '0' ≤ c ∧ c ≤ '9' then some (c.toNat - '0'.toNat)
  else if 'a' ≤ c ∧ c ≤ 'f' then some (c.toNat - 'a'.toNat + 10)
  else if 'A' ≤ c ∧ c ≤ 'F' then some (c.toNat - 'A'.toNat + 10)
  else none

/-- A number in hexadecimal digits, without leading zeros. -/
def ofNat (n : Nat) : List Char := Nat.toDigits 16 n

/-- Two digits for each byte. -/
def ofBytes (bs : List UInt8) : List Char :=
  bs.flatMap fun b => [digit (b.toNat / 16), digit (b.toNat % 16)]

/-- The bytes of a text of digit pairs; reading stops at the first pair that is none. -/
def toBytes : List Char → List UInt8
  | a :: b :: r =>
    match value? a, value? b with
    | some x, some y => UInt8.ofNat (16 * x + y) :: toBytes r
    | _, _ => []
  | _ => []

/-- The number that four hexadecimal digits stand for. -/
def four? (a b c d : Char) : Option Nat := do
  pure (4096 * (← value? a) + 256 * (← value? b) + 16 * (← value? c) + (← value? d))

end BlockFlow.Text.Hex
