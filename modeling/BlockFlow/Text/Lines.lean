import BlockFlow.Text.Blank

/-!
# Lines

A line of a text ends at a line feed; a carriage return right before the line feed belongs to the
end of the line. A text that ends with a line feed has no further, empty line. In bytes, lines end
at the byte of a line feed.
-/

namespace BlockFlow.Text

/-- The text without one carriage return at its end. -/
def dropReturn (cs : List Char) : List Char :=
  if cs.getLast? = some '\r' then cs.dropLast else cs

/-- The lines of a text without their ends. -/
def lines (cs : List Char) : List (List Char) :=
  let pieces := piecesBy (· == '\n') cs
  let last := pieces.getLast (piecesBy_ne_nil _ _)
  pieces.dropLast.map dropReturn ++ (if last.isEmpty then [] else [last])

/-- The byte that ends a line. -/
def lineFeed : UInt8 := 10

end BlockFlow.Text
