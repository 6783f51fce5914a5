/-!
# UTF-8

Bytes are read as UTF-8 in two ways: strictly, where the first ill-formed part is a fault, and
leniently, where every ill-formed part stands for one replacement character. Both ways come from
one division of the bytes into pieces.

1. `encode`: the bytes of a text.
2. `Piece`, `pieces`: the characters and the ill-formed parts of a byte sequence, in order. An
   ill-formed part is a longest proper beginning of a character, or a single byte that begins none.
   `ofText`: the pieces of a text, which are all characters.
3. `decode`, `decodeLenient`: the two readings; `Damage`: where the strict one stops.
-/

namespace BlockFlow.Text.Utf8

def encodeChar (c : Char) : List UInt8 := String.utf8EncodeChar c

def encode (cs : List Char) : List UInt8 := cs.flatMap encodeChar

/-- A part of a byte sequence. -/
inductive Piece where
  /-- A character. -/
  | char (c : Char)
  /-- So many bytes that no continuation makes a character. -/
  | bad (width : Nat)
  /-- So many bytes that begin a character, at the end of the sequence. -/
  | cut (width : Nat)
  deriving Repr, DecidableEq

/-- The number of bytes of a piece. -/
def Piece.width : Piece → Nat
  | .char c => c.utf8Size
  | .bad n => n
  | .cut n => n

/-- The character that stands for an ill-formed part. -/
def replacement : Char := '\uFFFD'

/-- What a piece is shown as. -/
def Piece.shown : Piece → Char
  | .char c => c
  | .bad _ => replacement
  | .cut _ => replacement

def width (ps : List Piece) : Nat := ps.foldr (·.width + ·) 0

def ofText (cs : List Char) : List Piece := cs.map .char

/-- Whether a byte can follow another one inside of a character. -/
def isTail (b : UInt8) : Bool := 0x80 ≤ b && b ≤ 0xBF

/-- Whether `x` can be the second byte of a character that begins with `b`: surrogates, code points
above the last plane and forms longer than needed are excluded here. -/
def isSecond (b x : UInt8) : Bool :=
  if b = 0xE0 then 0xA0 ≤ x && x ≤ 0xBF
  else if b = 0xED then 0x80 ≤ x && x ≤ 0x9F
  else if b = 0xF0 then 0x90 ≤ x && x ≤ 0xBF
  else if b = 0xF4 then 0x80 ≤ x && x ≤ 0x8F
  else isTail x

/-- The six low bits that a byte after the first one adds to a code point. -/
def low (b : UInt8) : Nat := b.toNat % 64

/-- The first piece of the bytes `b :: r`, and the bytes after it. -/
def front (b : UInt8) (r : List UInt8) : Piece × List UInt8 :=
  if b < 0x80 then (.char (Char.ofNat b.toNat), r)
  else if 0xC2 ≤ b && b ≤ 0xDF then
    match r with
    | [] => (.cut 1, [])
    | x :: r₁ =>
      if isTail x then (.char (Char.ofNat (b.toNat % 32 * 64 + low x)), r₁) else (.bad 1, r)
  else if 0xE0 ≤ b && b ≤ 0xEF then
    match r with
    | [] => (.cut 1, [])
    | [x] => if isSecond b x then (.cut 2, []) else (.bad 1, r)
    | x :: y :: r₂ =>
      if !isSecond b x then (.bad 1, r)
      else if isTail y then
        (.char (Char.ofNat (b.toNat % 16 * 4096 + low x * 64 + low y)), r₂)
      else (.bad 2, y :: r₂)
  else if 0xF0 ≤ b && b ≤ 0xF4 then
    match r with
    | [] => (.cut 1, [])
    | [x] => if isSecond b x then (.cut 2, []) else (.bad 1, r)
    | [x, y] =>
      if !isSecond b x then (.bad 1, r) else if isTail y then (.cut 3, []) else (.bad 2, [y])
    | x :: y :: z :: r₃ =>
      if !isSecond b x then (.bad 1, r)
      else if !isTail y then (.bad 2, y :: z :: r₃)
      else if isTail z then
        (.char (Char.ofNat (b.toNat % 8 * 262144 + low x * 4096 + low y * 64 + low z)), r₃)
      else (.bad 3, z :: r₃)
  else (.bad 1, r)

theorem length_front_le (b : UInt8) (r : List UInt8) : (front b r).2.length ≤ r.length := by
  unfold front
  repeat' split
  all_goals simp
  all_goals omega

/-- The pieces of a byte sequence, in order. -/
def pieces : List UInt8 → List Piece
  | [] => []
  | b :: r =>
    have := length_front_le b r
    (front b r).1 :: pieces (front b r).2
termination_by bs => bs.length

/-- The first ill-formed part of a byte sequence. -/
structure Damage where
  /-- The number of bytes before it. -/
  offset : Nat
  /-- Its bytes; none if the sequence ends inside of a character. -/
  width : Option Nat
  deriving Repr, DecidableEq

def Damage.message (d : Damage) : String :=
  match d.width with
  | some n => s!"invalid utf-8 sequence of {n} bytes from index {d.offset}"
  | none => s!"incomplete utf-8 byte sequence from index {d.offset}"

/-- The characters of pieces without an ill-formed part; `offset` bytes precede them. -/
def ofPieces (offset : Nat) : List Piece → Except Damage (List Char)
  | [] => .ok []
  | .char c :: ps => (ofPieces (offset + c.utf8Size) ps).map (c :: ·)
  | .bad n :: _ => .error ⟨offset, some n⟩
  | .cut _ :: _ => .error ⟨offset, none⟩

/-- The text that bytes spell. -/
def decode (bs : List UInt8) : Except Damage (List Char) := ofPieces 0 (pieces bs)

/-- The text that bytes spell, with a replacement character for every ill-formed part. -/
def decodeLenient (bs : List UInt8) : List Char :=
  (pieces bs).map Piece.shown

end BlockFlow.Text.Utf8

namespace BlockFlow

def bytesOf (s : String) : List UInt8 := Text.Utf8.encode s.toList

end BlockFlow
