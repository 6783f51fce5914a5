/-!
# Messages

Bytes that are sent on a stream wait in messages of a bounded size. A message takes more space than
its bytes: it has a head, which is managed together with them, and pages for what the head does not
hold.

1. `messages`: bytes cut into messages; `flatten_messages` says that nothing is lost.
2. `paged`, `weight`: the space that a message takes.
-/

namespace BlockFlow.Host.Message

def pageSize : Nat := 4096

/-- The space of so many bytes in whole pages. -/
def wholePages (n : Nat) : Nat := (n + pageSize - 1) / pageSize * pageSize

/-- The space that the management of a head takes beside its bytes. -/
def frame : Nat := 320

/-- The greatest number of bytes for which a head is enough: with the frame they fill a page. -/
def headRoom : Nat := pageSize - frame

/-- The greatest number of bytes of a message: a full head and eight pages. -/
def maxLength : Nat := headRoom + 8 * pageSize

/-! ## Cutting -/

def messages (bytes : List UInt8) : List (List UInt8) :=
  (List.range ((bytes.length + maxLength - 1) / maxLength)).map fun i =>
    (bytes.drop (i * maxLength)).take maxLength

theorem flatten_windows (width count : Nat) (bytes : List UInt8) :
    ((List.range count).map fun i => (bytes.drop (i * width)).take width).flatten =
      bytes.take (count * width) := by
  induction count with
  | zero => simp
  | succ count ih => simp [List.range_succ, ih, Nat.succ_mul, List.take_add]

theorem flatten_messages (bytes : List UInt8) : (messages bytes).flatten = bytes := by
  rw [messages, flatten_windows, List.take_of_length_le]
  simp only [maxLength, headRoom, pageSize, frame]
  omega

/-! ## Space -/

/-- How many bytes of a message of a length are in pages: as many whole pages as it has beyond a
full head, and the head has the rest. -/
def paged (length : Nat) : Nat := min length (wholePages (length - headRoom))

/-- The space of a message of a length: a fixed cost, the head with its frame rounded up to a power
of two, and the pages. -/
def weight (length : Nat) : Nat :=
  256 + max 512 (1 <<< (Nat.log2 (length - paged length + frame - 1) + 1)) +
    wholePages (paged length)

end BlockFlow.Host.Message
