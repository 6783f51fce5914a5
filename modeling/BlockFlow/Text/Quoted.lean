import BlockFlow.Text.Hex
import BlockFlow.Text.Unprinted

/-!
# Quoted text

Messages quote the text they complain about: between double quotes, with a backslash before a quote
or a backslash, short escapes for the usual controls, and the code point of every other character
that is not shown as it is.
-/

namespace BlockFlow.Text.Quoted

/-- A character inside of quotes. -/
def encodeChar (c : Char) : List Char :=
  if c = '"' then ['\\', '"']
  else if c = '\\' then ['\\', '\\']
  else if c = '\t' then ['\\', 't']
  else if c = '\r' then ['\\', 'r']
  else if c = '\n' then ['\\', 'n']
  else if c = '\x00' then ['\\', '0']
  else if isUnprinted c then ['\\', 'u', '\x7b'] ++ Hex.ofNat c.toNat ++ ['\x7d']
  else [c]

/-- A text between double quotes. -/
def encode (cs : List Char) : List Char := '"' :: cs.flatMap encodeChar ++ ['"']

end BlockFlow.Text.Quoted

namespace BlockFlow

/-- A string between double quotes, as messages show it. -/
def quote (s : String) : String := String.ofList (Text.Quoted.encode s.toList)

end BlockFlow
