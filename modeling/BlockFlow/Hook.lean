import BlockFlow.Binding
import BlockFlow.Timer
import BlockFlow.Watch.Basic

/-!
# Hooks

A block is a set of hooks, which the engine calls: when the block is bound, started, stopped or
configured, when a message comes, a timer fires or a descriptor is ready.
-/

namespace BlockFlow

/-- What a block is called for. -/
inductive Hook where
  | bind (port : Port) (dest : BlockId)
  | start
  | stop
  | configure (conf : String)
  | data (payload : Payload)
  | control (payload : Payload)
  | timer (t : Timer)
  | event (w : Watch)
  deriving Repr, Inhabited

/-- What a hook gives back. Only the reply to a message is looked at: the port on which the message
goes on, and its payload. -/
structure Reply where
  port : Port := stopPort
  payload : Payload := .empty
  deriving Repr, Inhabited

/-- How a flow of a kind calls a block. -/
def FlowKind.hook (kind : FlowKind) (payload : Payload) : Hook :=
  match kind with
  | .rx => .data payload
  | .tx => .data payload
  | .notif => .control payload

/-- A block as it is seen from outside. -/
structure BlockView where
  id : BlockId
  type : String
  state : State
  bindings : List Binding
  /-- What the block reports of itself; nothing while it is inside of a hook. -/
  stats : Option String
  deriving Repr, Inhabited

end BlockFlow
