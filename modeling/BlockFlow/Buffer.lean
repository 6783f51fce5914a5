import BlockFlow.Text.Utf8

/-!
# Buffers

A report is written to the front of a buffer of fixed capacity; what does not fit is left out, and
the bytes behind it stay as they were.
-/

namespace BlockFlow.Buffer

/-- A buffer with `report` at its front, as far as it fits: the number of bytes written, and the
buffer. -/
def write (buffer report : List UInt8) : Nat × List UInt8 :=
  let n := min report.length buffer.length
  (n, report.take n ++ buffer.drop n)

/-- Writing keeps the capacity. -/
theorem length_write (buffer report : List UInt8) :
    (write buffer report).2.length = buffer.length := by
  simp only [write, List.length_append, List.length_take, List.length_drop]
  omega

/-- The front of the buffer is the front of the report. -/
theorem take_write (buffer report : List UInt8) :
    (write buffer report).2.take (write buffer report).1 = report.take (write buffer report).1 := by
  simp only [write, List.take_append, List.length_take, List.take_take]
  simp

/-- What is behind the report stays as it was. -/
theorem drop_write (buffer report : List UInt8) :
    (write buffer report).2.drop (write buffer report).1 = buffer.drop (write buffer report).1 := by
  simp only [write]
  exact List.drop_left' (by simp)

/-- The number of bytes of a buffer that statistics of a block are written to. -/
def statsCapacity : Nat := 256

def zeros (capacity : Nat) : List UInt8 := List.replicate capacity 0

/-- The text in the first `n` bytes of a buffer. -/
def textIn (buffer : List UInt8) (n : Nat) : String :=
  String.ofList (Text.Utf8.decodeLenient (buffer.take n))

end BlockFlow.Buffer
