import BlockFlow.Json.Reader

/-!
# Reading JSON values

1. `items`, `members`: arrays and objects over any reader of their parts.
2. `value`: a value with a bound on the nesting of arrays and objects.
3. `ignored`: a value that is passed over. Its nesting is not bounded, and neither the size of its
   numbers nor the pairing of its surrogates is looked at.
4. `readAll`, `readBytes`: a whole text and the whole of some bytes; `parse`: a text that is one
   value.
-/

namespace BlockFlow.Json

/-! ## Arrays and objects -/

/-- Whether another part follows in an array or object that ends with `close`: the comma before it
is taken, and a comma must be followed by a part. -/
def another (close : Char) (first : Bool) : Reader Bool := do
  match ← peek with
  | none => throw .truncated
  | some c =>
    if c = close then return false
    else if first then return true
    else if c = ',' then
      skip
      match ← peek with
      | none => throw .truncated
      | some d => if d = close then throw .malformed else return true
    else throw .malformed

/-- The end of an array or object whose parts have all been read. -/
def closing (close : Char) : Reader Unit := do
  match ← peek with
  | none => throw .truncated
  | some c => if c = close then skip else throw .malformed

/-- At most `n` items of an array, after its bracket and before its end. -/
def itemsFrom {α : Type} (item : Reader α) : Nat → Bool → Reader (List α)
  | 0, _ => throw .truncated
  | n + 1, first => do
    if ← another ']' first then
      let x ← item
      return x :: (← itemsFrom item n false)
    else return []

/-- The items of an array after its bracket, and its end. -/
def items {α : Type} (n : Nat) (item : Reader α) : Reader (List α) := do
  let xs ← itemsFrom item n true
  closing ']'
  return xs

/-- Whether another member follows, and its name. -/
def memberName? (first : Bool) : Reader (Option String) := do
  if ← another '\x7d' first then
    if (← next) = '"' then some <$> string else throw .malformed
  else return none

/-- The colon after the name of a member. -/
def colon : Reader Unit := do
  match ← peek with
  | none => throw .truncated
  | some c => if c = ':' then skip else throw .malformed

/-- At most `n` members of an object, after its brace and before its end. The reader of a member
gets its name and what the members before it gave; it begins before the colon. -/
def membersFrom {σ : Type} (member : σ → String → Reader σ) : Nat → Bool → σ → Reader σ
  | 0, _, _ => throw .truncated
  | n + 1, first, s => do
    match ← memberName? first with
    | some name => do membersFrom member n false (← member s name)
    | none => return s

/-- The members of an object after its brace, and its end. -/
def members {σ : Type} (n : Nat) (member : σ → String → Reader σ) (s : σ) : Reader σ := do
  let s ← membersFrom member n true s
  closing '\x7d'
  return s

/-! ## Values -/

/-- The greatest number of arrays and objects that may be nested. -/
def maxNesting : Nat := 127

/-- A value whose items and members are read by `inner`; without it, it has none. -/
def valueWith (n : Nat) (inner : Option (Reader Json)) : Reader Json := do
  match ← peek with
  | none => throw .truncated
  | some c =>
    match c with
    | 'n' => do skip; literal ['u', 'l', 'l']; return .null
    | 't' => do skip; literal ['r', 'u', 'e']; return .bool true
    | 'f' => do skip; literal ['a', 'l', 's', 'e']; return .bool false
    | '"' => do skip; return .text (← string)
    | '-' => do skip; return .number (← numeral true)
    | '[' =>
      match inner with
      | none => throw .malformed
      | some item => do skip; return .array (← items n item)
    | '\x7b' =>
      match inner with
      | none => throw .malformed
      | some value => do
        skip
        let member (done : List (String × Json)) (name : String) := do
          colon
          return (name, ← value) :: done
        return .object (← members n member []).reverse
    | c => if c.isDigit then return .number (← numeral false) else throw .malformed

/-- A value with at most `depth` nested arrays and objects; `n` bounds the parts of each. -/
def value (n : Nat) : (depth : Nat) → Reader Json
  | 0 => valueWith n none
  | depth + 1 => valueWith n (some (value n depth))

/-! ## Values that are passed over -/

/-- The escape of a string that is passed over, after its backslash. -/
def ignoredEscape : Reader Unit := do
  let c ← next
  if c = 'u' then discard hexFour
  else if !(['"', '\\', '/', 'b', 'f', 'n', 'r', 't'].contains c) then throw .malformed

/-- A string that is passed over, after its opening quote. -/
def ignoredString : Nat → Reader Unit
  | 0 => throw .truncated
  | n + 1 => do
    match ← next with
    | '"' => return
    | '\\' => do ignoredEscape; ignoredString n
    | c => do
      if c.toNat < 0x20 then throw .malformed
      ignoredString n

/-- Digits that are passed over, of which there must be one. -/
def ignoredDigits : Reader Unit := do
  if (← takeDigits).isEmpty then throw .malformed

/-- A number that is passed over, after its sign. -/
def ignoredNumber : Reader Unit := do
  let digits ← takeDigits
  if digits.isEmpty || (digits.head? = some '0' && digits.length ≠ 1) then throw .malformed
  if (← peekHere) = some '.' then
    skip
    ignoredDigits
  let mark ← peekHere
  if mark = some 'e' || mark = some 'E' then
    skip
    let sign ← peekHere
    if sign = some '+' || sign = some '-' then skip
    ignoredDigits

/-- What surrounds a value that is passed over. -/
inductive Frame where
  | array
  | object
  deriving Repr, DecidableEq

/-- The character that ends a frame. -/
def Frame.close : Frame → Char
  | .array => ']'
  | .object => '\x7d'

/-- The name and the colon that stand before a value in its frame. -/
def ignoredName (n : Nat) : Frame → Reader Unit
  | .array => pure ()
  | .object => do
    match ← peek with
    | none => throw .truncated
    | some c =>
      if c ≠ '"' then throw .malformed
      skip
      ignoredString n
      colon

/-- The ends of frames after a value or, if `first`, after an opening bracket. The result is the
frames that remain when another value follows, and nothing when the outermost one has ended. -/
def ignoredEnds (n : Nat) : Bool → List Frame → Reader (Option (List Frame))
  | _, [] => return none
  | first, frame :: frames => do
    match ← peek with
    | none => throw .truncated
    | some c =>
      if c = frame.close then
        skip
        ignoredEnds n false frames
      else if first then
        ignoredName n frame
        return some (frame :: frames)
      else if c = ',' then
        skip
        ignoredName n frame
        return some (frame :: frames)
      else throw .malformed

/-- A value inside of frames is passed over, with all that remains of the frames. -/
def ignoredIn (n : Nat) : Nat → List Frame → Reader Unit
  | 0, _ => throw .truncated
  | k + 1, frames => do
    let opened ← do
      match ← peek with
      | none => throw .truncated
      | some c =>
        match c with
        | 'n' => do skip; literal ['u', 'l', 'l']; pure none
        | 't' => do skip; literal ['r', 'u', 'e']; pure none
        | 'f' => do skip; literal ['a', 'l', 's', 'e']; pure none
        | '"' => do skip; ignoredString n; pure none
        | '-' => do skip; ignoredNumber; pure none
        | '[' => do skip; pure (some Frame.array)
        | '\x7b' => do skip; pure (some Frame.object)
        | c => if c.isDigit then do ignoredNumber; pure none else throw .malformed
    let rest ←
      match opened with
      | some frame => ignoredEnds n true (frame :: frames)
      | none => ignoredEnds n false frames
    match rest with
    | some frames => ignoredIn n k frames
    | none => return

/-- A value is passed over. -/
def ignored (n : Nat) : Reader Unit := ignoredIn n n []

/-! ## Texts -/

/-- Pieces that are read to their end; only spaces may follow. -/
def readPieces {α : Type} (reader : Nat → Reader α) (ps : List Text.Utf8.Piece) :
    Except Fault α := do
  let (x, rest) ← (reader (ps.length + 1)).run ps
  if (afterSpaces rest).isEmpty then return x else throw .malformed

/-- A text that is read to its end. -/
def readAll {α : Type} (reader : Nat → Reader α) (cs : List Char) : Except Fault α :=
  readPieces reader (Text.Utf8.ofText cs)

def readBytes {α : Type} (reader : Nat → Reader α) (bs : List UInt8) : Except Fault α :=
  readPieces reader (Text.Utf8.pieces bs)

/-- The value that a text spells, its members in the order of the text. -/
def parseRaw (cs : List Char) : Except Fault Json := readAll (fun n => value n maxNesting) cs

/-- The value that a text spells, in normal form. -/
def parse (cs : List Char) : Except Fault Json := normalize <$> parseRaw cs

end BlockFlow.Json

