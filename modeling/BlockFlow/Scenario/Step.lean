import BlockFlow.Command.Json
import BlockFlow.Scenario.Outcome

/-!
# Steps of a scenario

A step is something that is asked for from outside, or that a programmed block does in one of its
hooks. A hook has a payload at hand, which some steps use or change.

1. `Remark`: what a programmed block tells of a step.
2. `Step`, `Step.play`: steps, and what is done for them.
-/

namespace BlockFlow.Scenario

/-- What a programmed block tells of a step: itself, the label of the step and what came of it. -/
structure Remark where
  id : BlockId
  label : String
  outcome : Outcome
  deriving Repr

/-- A step of a scenario, where `F` is the type of factories. -/
inductive Step (F : Type) where
  | request (r : Request F Remark)
  /-- What a block reports of itself. -/
  | stats (id : BlockId)
  /-- The number of live blocks. -/
  | count
  /-- A file is applied, after it was made if a content is given. -/
  | loadFile (path : String) (content : Option (List UInt8))
  /-- The descriptors of a range are watched for reading. -/
  | watchRange (owner : BlockId) (lower upper : Fd)
  /-- A command is executed by its code. -/
  | exec (code : Int32) (id : BlockId) (arg : Option String)
  /-- A structured command is read and executed. -/
  | command (text : String)
  /-- The payload at hand is replaced. -/
  | set (payload : Payload)
  /-- Text is added to the payload at hand. -/
  | append (text : String)
  /-- A flow starts at the block itself, with a payload of its own or with the one at hand. -/
  | ownFlow (kind : FlowKind) (port : Port) (payload : Option Payload)
  | ownArm (tid : TimerId) (delay : Duration) (arg : Payload)
  | ownDisarm (tid : TimerId)
  | ownWatch (source : Source) (interest : Interest)
  | ownUnwatch (source : Source) (interest : Interest)

namespace Step

instance {F : Type} : Inhabited (Step F) := ⟨.count⟩

open Script

variable {F S : Type}

/-- Descriptors are watched one after the other: how many are accepted, with those before. -/
def watchEach (owner : BlockId) : (accepted : Nat) → List Fd → Script F Remark S Nat
  | accepted, [] => return accepted
  | accepted, fd :: fds => do
    match ← ask (.watch (.reading owner fd)) with
    | .ok () => watchEach owner (accepted + 1) fds
    | .error _ => watchEach owner accepted fds

/-- The descriptors from one to another. -/
def range (lower upper : Fd) : List Fd :=
  (List.range (upper.toInt + 1 - lower.toInt).toNat).map fun i => lower + Int32.ofNat i

def askFor (r : Request F Remark) : Script F Remark S Outcome := do
  return outcome r (← ask r)

/-- A step of a block with a payload at hand: its outcome, and the payload after it. -/
def play (own : BlockId) (payload : Payload) : Step F → Script F Remark S (Outcome × Payload)
  | .request r => return (← askFor r, payload)
  | .stats id => do
    let view ← ask (.view id)
    return (.text (view.bind (·.stats)), payload)
  | .count => do
    let views ← ask .views
    return (.count views.length, payload)
  | .loadFile path content => do
    match content with
    | none => return (← askFor (.loadFile path), payload)
    | some content => do
      discard (ask (.act (.makeFile path content)))
      return (← askFor (.loadFile path), payload)
  | .watchRange owner lower upper => do
    let accepted ← watchEach owner 0 (range lower upper)
    return (.count accepted, payload)
  | .exec code id arg =>
    match CommandKind.ofCode? code with
    | some kind => return (← askFor (.exec kind id arg), payload)
    | none => return (.unknownCode code, payload)
  | .command text =>
    match Command.ofText text.toList with
    | .ok c => return (← askFor (.command c), payload)
    | .error fault => return (.undecodable fault, payload)
  | .set p => return (.done, p)
  | .append text => return (.done, payload.append text)
  | .ownFlow kind port (some p) => do
    discard (ask (.flow own port p kind))
    return (.done, payload)
  | .ownFlow kind port none => do
    let payload ← ask (.flow own port payload kind)
    return (.done, payload)
  | .ownArm tid delay arg => return (← askFor (.arm own tid delay arg), payload)
  | .ownDisarm tid => return (← askFor (.disarm own tid), payload)
  | .ownWatch source interest => return (← askFor (.watch ⟨own, source, interest⟩), payload)
  | .ownUnwatch source interest => return (← askFor (.unwatch ⟨own, source, interest⟩), payload)

end Step

end BlockFlow.Scenario
