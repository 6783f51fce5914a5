import BlockFlow.Manager

/-!
# Flows

A flow starts at a block and a port. At each hop the first binding of the port leads to the next
block, whose reply names the port on which the flow goes on.

1. `Hop`, `Manager.hop`: where a flow that leaves a block on a port comes to.
2. `follow`, `flow`: a flow from hop to hop.
3. `control`: a control message, which crosses no binding.
-/

namespace BlockFlow

/-- Where a flow comes to. -/
inductive Hop where
  /-- The block it was at is gone. -/
  | vanished
  /-- No binding leads on. -/
  | unbound
  /-- The binding leads to the sink. -/
  | ended
  /-- The flow has made as many hops as it may. -/
  | limited (max : Nat)
  /-- The binding leads to no live block. -/
  | lost (dest : BlockId)
  /-- The binding leads to a live block. -/
  | routed (dest : BlockId)
  deriving Repr, DecidableEq

/-- Where a flow comes to that leaves a block on a port after some hops. -/
def Manager.hop {K : Kit} (m : Manager K) (hops : Nat) (id : BlockId) (port : Port) : Hop :=
  match m.blocks.get? id with
  | none => .vanished
  | some entry =>
    match Binding.route? entry.bindings port with
    | none => .unbound
    | some b =>
      if b.dest.isSink then .ended
      else
        let onward := if m.blocks.contains b.dest then .routed b.dest else .lost b.dest
        match m.settings.maxHops with
        | none => onward
        | some max => if max.toNat ≤ hops then .limited max.toNat else onward

/-- What is told of a hop from a block on a port. -/
def Hop.notice (id : BlockId) (port : Port) (kind : FlowKind) : Hop → Notice
  | .vanished => .flowVanished id kind
  | .unbound => .flowUnbound id port kind
  | .ended => .flowEnded id port kind
  | .limited max => .flowLimit id kind max
  | .lost dest => .flowLost id port dest kind
  | .routed dest => .flowRouted id port dest kind

namespace Run

variable {K : Kit}

/-- A flow goes on from a block and a port, with at most `n` more hops: the payload at its end. -/
def follow (call : Call K) (kind : FlowKind) :
    Nat → (hops : Nat) → BlockId → Port → Payload → Run K Payload
  | 0, _, _, _, _ => outOfFuel
  | n + 1, hops, id, port, payload => do
    let hop := (← manager).hop hops id port
    notify (hop.notice id port kind)
    match hop with
    | .routed dest =>
      match ← call dest (kind.hook payload) with
      | none => return payload
      | some reply =>
        if reply.port = stopPort then
          notify (.flowDropped dest kind)
          return reply.payload
        else follow call kind n (hops + 1) dest reply.port reply.payload
    | _ => return payload

/-- A flow starts at a block, which must be started: the payload at its end. -/
def flow (call : Call K) (n : Nat) (id : BlockId) (port : Port) (payload : Payload)
    (kind : FlowKind) : Run K Payload := do
  match (← manager).blocks.get? id with
  | none =>
    notify (.flowNotFound id kind)
    return payload
  | some entry =>
    match entry.state with
    | .stopped =>
      notify (.flowNotStarted id kind)
      return payload
    | .started =>
      notify (.flowStarted id port kind)
      follow call kind n 0 id port payload

/-- A control message is handed to a block: the port of its reply, if there is one, and the
payload. -/
def control (call : Call K) (id : BlockId) (payload : Payload) :
    Run K (Option Port × Payload) := do
  if (← manager).blocks.contains id then
    match ← call id (.control payload) with
    | none => return (none, payload)
    | some reply => return (some reply.port, reply.payload)
  else
    notify (.controlUnknown id)
    return (none, payload)

end Run

end BlockFlow
