import BlockFlow.Json.Value
import BlockFlow.Number.Shortest
import BlockFlow.Text.Hex
import BlockFlow.Text.Numeral
import BlockFlow.Text.Utf8

/-!
# Writing JSON

A value is written without blanks. Strings escape the quote, the backslash and the controls; all
other characters stand for themselves. A number that is no integer is written with the fewest digits
that are read back, and always shows that it is none.
-/

namespace BlockFlow.Json

/-- Numbers have up to sixteen digits before the point and up to four zeros after it before an
exponent is used; a whole number ends in `.0`. -/
def numberLayout : Binary64.Layout := ⟨16, 4, ['.', '0'], 'e'⟩

def renderNumber : Number → List Char
  | .integer n => Text.Numeral.ofInt n
  | .binary x => x.render numberLayout

/-- A character inside of a string. -/
def escapeChar (c : Char) : List Char :=
  if c = '"' then ['\\', '"']
  else if c = '\\' then ['\\', '\\']
  else if c = '\x08' then ['\\', 'b']
  else if c = '\x0c' then ['\\', 'f']
  else if c = '\n' then ['\\', 'n']
  else if c = '\r' then ['\\', 'r']
  else if c = '\t' then ['\\', 't']
  else if c.toNat < 0x20 then
    ['\\', 'u', '0', '0', Text.Hex.digit (c.toNat / 16), Text.Hex.digit (c.toNat % 16)]
  else [c]

def renderText (cs : List Char) : List Char := '"' :: cs.flatMap escapeChar ++ ['"']

mutual

def render : Json → List Char
  | .null => ['n', 'u', 'l', 'l']
  | .bool true => ['t', 'r', 'u', 'e']
  | .bool false => ['f', 'a', 'l', 's', 'e']
  | .number n => renderNumber n
  | .text s => renderText s.toList
  | .array [] => ['[', ']']
  | .array (x :: xs) => '[' :: (render x ++ renderItems xs)
  | .object [] => ['\x7b', '\x7d']
  | .object ((name, value) :: ms) =>
    '\x7b' :: (renderText name.toList ++ ':' :: (render value ++ renderMembers ms))

/-- The items after the first one, and the end of the array. -/
def renderItems : List Json → List Char
  | [] => [']']
  | x :: xs => ',' :: (render x ++ renderItems xs)

/-- The members after the first one, and the end of the object. -/
def renderMembers : List (String × Json) → List Char
  | [] => ['\x7d']
  | (name, value) :: ms =>
    ',' :: (renderText name.toList ++ ':' :: (render value ++ renderMembers ms))

end

def toText (v : Json) : String := String.ofList (render v)

/-- The number of bytes of the text of a value. -/
def textSize (v : Json) : Nat := (Text.Utf8.encode (render v)).length

end BlockFlow.Json
