/-!
# Decimal numerals

Identifiers, ports and codes are 32-bit integers written in decimal. A numeral has an optional
sign of either kind and at least one digit; leading zeros are allowed.

1. `ofNat`, `ofInt`: the shortest numeral of a number.
2. `readNat?`, `readInt?`, `readInt32?`: the number a numeral stands for.
-/

namespace BlockFlow.Text.Numeral

/-- The decimal digits of a natural number, without leading zeros. -/
def ofNat (n : Nat) : List Char := Nat.toDigits 10 n

/-- The decimal numeral of an integer; only a negative number has a sign. -/
def ofInt (n : Int) : List Char :=
  match n with
  | .ofNat m => ofNat m
  | .negSucc m => '-' :: ofNat (m + 1)

/-- The number that a nonempty text of decimal digits stands for. -/
def readNat? (cs : List Char) : Option Nat :=
  if !cs.isEmpty && cs.all Char.isDigit then some (Nat.ofDigitChars 10 cs 0) else none

/-- The number that an optionally signed numeral stands for. -/
def readInt? (cs : List Char) : Option Int :=
  match cs with
  | '-' :: ds => (readNat? ds).map fun n => -(n : Int)
  | '+' :: ds => (readNat? ds).map Int.ofNat
  | ds => (readNat? ds).map Int.ofNat

/-- Whether an integer fits 32 bits with a sign. -/
def fitsInt32 (n : Int) : Bool := -2147483648 ≤ n && n ≤ 2147483647

/-- The 32-bit integer that a numeral stands for, if it fits. -/
def readInt32? (cs : List Char) : Option Int32 :=
  match readInt? cs with
  | some n => if fitsInt32 n then some (Int32.ofInt n) else none
  | none => none

theorem readNat?_ofNat (n : Nat) : readNat? (ofNat n) = some n := by
  have hd : (ofNat n).all Char.isDigit = true :=
    List.all_eq_true.2 fun c hc => Nat.isDigit_of_mem_toDigits (by decide) (by decide) hc
  have hne : (ofNat n).isEmpty = false := by simp [ofNat, Nat.toDigits_ne_nil]
  rw [readNat?, hd, hne]
  simp [ofNat, Nat.ofDigitChars_ten_toDigits]

theorem head_ofNat_ne {n : Nat} {c : Char} (h : c.isDigit = false) : (ofNat n).head? ≠ some c := by
  intro hc
  have := Nat.isDigit_of_mem_toDigits (by decide) (by decide) (List.mem_of_head? hc)
  simp [h] at this

theorem readInt?_ofNat (n : Nat) : readInt? (ofNat n) = some (n : Int) := by
  have hm := head_ofNat_ne (n := n) (c := '-') (by decide)
  have hp := head_ofNat_ne (n := n) (c := '+') (by decide)
  unfold readInt?
  split
  · next h => simp [h] at hm
  · next h => simp [h] at hp
  · simp [readNat?_ofNat]

/-- Reading a written numeral gives the number back. -/
theorem readInt?_ofInt (n : Int) : readInt? (ofInt n) = some n := by
  cases n with
  | ofNat m => exact readInt?_ofNat m
  | negSucc m => simp [ofInt, readInt?, readNat?_ofNat, Int.negSucc_eq]

theorem readInt32?_ofInt (n : Int32) : readInt32? (ofInt n.toInt) = some n := by
  have hl := n.minValue_le_toInt
  have hu := n.toInt_lt
  have hf : fitsInt32 n.toInt = true := by
    simp only [fitsInt32, Bool.and_eq_true, decide_eq_true_eq]
    exact ⟨hl, by omega⟩
  simp [readInt32?, readInt?_ofInt, hf]

end BlockFlow.Text.Numeral
