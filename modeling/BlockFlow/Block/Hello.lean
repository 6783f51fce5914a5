import BlockFlow.Buffer
import BlockFlow.Script

/-!
# Hello blocks

A hello block counts the data messages it handles and spreads them over its first eight ports: the
message after `n` others leaves on port `n % 8`, so every eighth message ends there. A control
message makes it send the message as data on the port that is next.
-/

namespace BlockFlow

/-- The contents of a hello block. -/
structure Hello where
  /-- The last configuration entry. -/
  name : String := ""
  /-- The number of data messages handled. A counter of 64 bits holds it; that this overflows is out
  of scope here. -/
  count : Nat := 0
  deriving Repr, DecidableEq, Inhabited

namespace Hello

open Script

variable {F M : Type}

/-- The number of ports that are used in turn. -/
def ports : Nat := 8

/-- The port of the next data message. -/
def nextPort (h : Hello) : Port := Int32.ofNat (h.count % ports)

def report (h : Hello) (buffer : List UInt8) : Nat × List UInt8 :=
  Buffer.write buffer (bytesOf (textOfNat h.count))

def hook (h : Hello) (id : BlockId) : Hook → Script F M Hello Reply
  | .bind port dest => do
    notify (.helloBound id port dest)
    return {}
  | .start => do
    notify (.helloStarted id h.name)
    return {}
  | .stop => do
    notify (.helloStopped id h.name)
    return {}
  | .configure conf => do
    notify (.helloConfigured id conf)
    leaveAs { h with name := conf }
    return {}
  | .data payload => do
    notify (.helloData id h.nextPort)
    leaveAs { h with count := h.count + 1 }
    return ⟨h.nextPort, payload⟩
  | .control payload => do
    let payload ← ask (.flow id h.nextPort payload .tx)
    return ⟨stopPort, payload⟩
  | .timer _ => return {}
  | .event _ => return {}

end Hello

end BlockFlow
