import BlockFlow.Text.Numeral

/-!
# Durations and instants

Time is counted in nanoseconds. An instant is a time after a fixed origin; the seconds of an instant
must fit a signed 64-bit integer, so moving an instant forward can fail.
-/

namespace BlockFlow

/-- A length of time. -/
structure Duration where
  nanos : Nat
  deriving Repr, DecidableEq, Inhabited

namespace Duration

/-- The nanoseconds of a second. -/
def second : Nat := 1000000000

/-- The nanoseconds of a millisecond. -/
def milli : Nat := 1000000

/-- The nanoseconds of a microsecond. -/
def micro : Nat := 1000

/-- Seconds, nanoseconds and milliseconds together. -/
def ofParts (seconds nanos millis : Nat) : Duration :=
  ⟨seconds * second + nanos + millis * milli⟩

def ofMillis (n : Nat) : Duration := ⟨n * milli⟩

/-- The whole milliseconds of a duration. -/
def millis (d : Duration) : Nat := d.nanos / milli

/-- A number below `10 ^ width` in exactly `width` digits. -/
def padded (width n : Nat) : List Char :=
  let digits := Text.Numeral.ofNat n
  List.replicate (width - digits.length) '0' ++ digits

/-- Digits after a decimal point without trailing zeros; nothing if there are none. -/
def fraction (width n : Nat) : List Char :=
  match ((padded width n).reverse.dropWhile (· == '0')).reverse with
  | [] => []
  | ds => '.' :: ds

/-- A duration in the greatest unit that it reaches, with all its decimals. -/
def render (d : Duration) : List Char :=
  let scaled (unit width : Nat) (name : List Char) :=
    Text.Numeral.ofNat (d.nanos / unit) ++ fraction width (d.nanos % unit) ++ name
  if second ≤ d.nanos then scaled second 9 ['s']
  else if milli ≤ d.nanos then scaled milli 6 ['m', 's']
  else if micro ≤ d.nanos then scaled micro 3 ['µ', 's']
  else scaled 1 0 ['n', 's']

def toText (d : Duration) : String := String.ofList d.render

end Duration

/-- A point in time. -/
structure Instant where
  nanos : Nat
  deriving Repr, DecidableEq, Inhabited

namespace Instant

instance : LE Instant := ⟨fun a b => a.nanos ≤ b.nanos⟩

instance : LT Instant := ⟨fun a b => a.nanos < b.nanos⟩

instance (a b : Instant) : Decidable (a ≤ b) := inferInstanceAs (Decidable (a.nanos ≤ b.nanos))

instance (a b : Instant) : Decidable (a < b) := inferInstanceAs (Decidable (a.nanos < b.nanos))

theorem le_def {a b : Instant} : a ≤ b ↔ a.nanos ≤ b.nanos := Iff.rfl

theorem lt_def {a b : Instant} : a < b ↔ a.nanos < b.nanos := Iff.rfl

theorem lt_or_eq_of_le {a b : Instant} (h : a ≤ b) : a < b ∨ a = b := by
  obtain ⟨a⟩ := a
  obtain ⟨b⟩ := b
  rcases Nat.lt_or_eq_of_le h with hlt | rfl
  · exact .inl hlt
  · exact .inr rfl

/-- The first time that no instant has. -/
def bound : Nat := UInt64.size / 2 * Duration.second

/-- The instant a duration later, if there is one. -/
def later? (t : Instant) (d : Duration) : Option Instant :=
  if t.nanos + d.nanos < bound then some ⟨t.nanos + d.nanos⟩ else none

theorem le_of_later? {t u : Instant} {d : Duration} (h : t.later? d = some u) : t ≤ u := by
  simp only [later?, Option.ite_none_right_eq_some, Option.some.injEq] at h
  simp [← h.2, le_def]

/-- The text of an instant: its seconds, and nine decimals. -/
def toText (t : Instant) : String :=
  String.ofList (Text.Numeral.ofNat (t.nanos / Duration.second) ++
    '.' :: Duration.padded 9 (t.nanos % Duration.second))

end Instant

end BlockFlow
