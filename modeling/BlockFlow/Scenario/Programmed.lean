import BlockFlow.Block.Builtin
import BlockFlow.Scenario.Step

/-!
# Programmed blocks

A programmed block does the steps that its program lists for each hook, and sends the messages it
handles on to the ports that its program lists. Messages and steps are counted before they are dealt
with, so a message or a step that breaks off has been counted.

1. `Action`, `Program`, `Maker`: programs, and the factories of a scenario.
2. `Programmed`: the contents of a programmed block; `hook`: its hooks.
3. `Block`, `kit`: all blocks of a scenario.
4. `Sight`: what is seen of programmed blocks.
-/

namespace BlockFlow.Scenario

/-- A step in a program, with a label and, perhaps, a number of times that it is done at most. -/
structure Action (F : Type) where
  label : String
  step : Step F
  left : Option Nat := none

/-- What a programmed block does. -/
structure Program (F : Type) where
  /-- The ports of data messages in turn; the last one is kept. -/
  routes : List Port := []
  /-- The ports of control messages in turn; the last one is kept. -/
  controlRoutes : List Port := []
  /-- What the block reports of itself, if it is not the number of messages handled. -/
  stats : Option String := none
  /-- The length that the block tells of its report, if it is not the true one. -/
  statsLength : Option Nat := none
  onBind : List (Action F) := []
  onStart : List (Action F) := []
  onStop : List (Action F) := []
  onConf : List (Action F) := []
  onData : List (Action F) := []
  onControl : List (Action F) := []
  onTimer : List (Action F) := []
  onEvent : List (Action F) := []

namespace Program

variable {F : Type}

def actions (p : Program F) : Hook → List (Action F)
  | .bind _ _ => p.onBind
  | .start => p.onStart
  | .stop => p.onStop
  | .configure _ => p.onConf
  | .data _ => p.onData
  | .control _ => p.onControl
  | .timer _ => p.onTimer
  | .event _ => p.onEvent

def withActions (p : Program F) (hook : Hook) (actions : List (Action F)) : Program F :=
  match hook with
  | .bind _ _ => { p with onBind := actions }
  | .start => { p with onStart := actions }
  | .stop => { p with onStop := actions }
  | .configure _ => { p with onConf := actions }
  | .data _ => { p with onData := actions }
  | .control _ => { p with onControl := actions }
  | .timer _ => { p with onTimer := actions }
  | .event _ => { p with onEvent := actions }

end Program

/-- The payload at hand when a hook begins. -/
def payloadOf : Hook → Payload
  | .configure conf => .text conf
  | .data payload => payload
  | .control payload => payload
  | .timer t => t.arg
  | _ => .empty

/-- A factory of a scenario. -/
inductive Maker where
  | builtin (kind : BuiltinKind)
  /-- It never builds a block. -/
  | broken
  /-- Its blocks have no hooks. -/
  | quiet
  | programmed (program : Program Maker)

instance : Inhabited Maker := ⟨.broken⟩

/-- The contents of a programmed block. -/
structure Programmed where
  program : Program Maker
  /-- The number of messages handled, of data and of control. -/
  handled : Nat := 0

namespace Programmed

open Script

/-- The port of the message after `n` others. -/
def portAfter (routes : List Port) (n : Nat) : Port :=
  (routes[n]?.or routes.getLast?).getD stopPort

/-- The actions of a hook are done in order, each with a remark: the payload after them. An action
is counted before it is done, and `before` are the actions before it. -/
def runActions (c : Programmed) (id : BlockId) (hook : Hook) : (before : List (Action Maker)) →
    Payload → List (Action Maker) → Script Maker Remark Programmed Payload
  | _, payload, [] => return payload
  | before, payload, a :: rest =>
    match a.left with
    | some 0 => runActions c id hook (before ++ [a]) payload rest
    | left => do
      let counted := { a with left := left.map (· - 1) }
      leaveAs { c with program := c.program.withActions hook (before ++ counted :: rest) }
      let (outcome, payload) ← a.step.play id payload
      ask (.remark ⟨id, a.label, outcome⟩)
      runActions c id hook (before ++ [counted]) payload rest

/-- The contents with one more message handled, if a hook is called for one. -/
def count (c : Programmed) : Hook → Programmed
  | .data _ => { c with handled := c.handled + 1 }
  | .control _ => { c with handled := c.handled + 1 }
  | _ => c

def replyTo (c : Programmed) (hook : Hook) (payload : Payload) : Reply :=
  match hook with
  | .data _ => ⟨portAfter c.program.routes c.handled, payload⟩
  | .control _ => ⟨portAfter c.program.controlRoutes c.handled, payload⟩
  | _ => {}

/-- The hooks of a programmed block. A message is counted before the actions for it. -/
def hook (c : Programmed) (id : BlockId) (h : Hook) : Script Maker Remark Programmed Reply := do
  leaveAs (c.count h)
  let payload ← runActions (c.count h) id h [] (payloadOf h) (c.program.actions h)
  return c.replyTo h payload

/-- What a programmed block reports of itself. -/
def report (c : Programmed) (buffer : List UInt8) : Nat × List UInt8 :=
  let text := c.program.stats.getD s!"handled={textOfNat c.handled}"
  let (n, buffer) := Buffer.write buffer (bytesOf text)
  (c.program.statsLength.getD n, buffer)

end Programmed

/-- A block of a scenario. -/
inductive Block where
  | builtin (b : Builtin)
  | quiet
  | programmed (c : Programmed)

namespace Block

/-- A new block of a factory. -/
def build : Maker → Option Block
  | .builtin kind => some (.builtin (Builtin.build kind))
  | .broken => none
  | .quiet => some .quiet
  | .programmed program => some (.programmed { program })

/-- What a block without hooks replies. -/
def silence : Hook → Reply
  | .data payload => ⟨stopPort, payload⟩
  | .control payload => ⟨stopPort, payload⟩
  | _ => {}

def hook (b : Block) (id : BlockId) (h : Hook) : Script Maker Remark Block Reply :=
  match b with
  | .builtin c => (c.hook id h).mapState .builtin
  | .quiet => return silence h
  | .programmed c => (c.hook id h).mapState .programmed

def report : Block → List UInt8 → Nat × List UInt8
  | .builtin b => b.report
  | .quiet => fun buffer => (0, buffer)
  | .programmed c => c.report

/-- What is left of a block is closed. -/
def release : Block → Host → Host
  | .builtin b => b.release
  | .quiet => id
  | .programmed _ => id

end Block

/-- An engine that runs the blocks of a scenario. -/
@[reducible] def kit : Kit where
  Factory := Maker
  Contents := Block
  Remark := Remark
  build := fun maker h => (Block.build maker, h)
  hook := Block.hook
  report := Block.report
  release := Block.release

/-! ## What is seen -/

/-- What is seen of programmed blocks and their factories. -/
inductive Sight where
  | built (type : String) (number : Nat)
  | called (id : BlockId) (hook : Hook)
  | remarked (r : Remark)
  | returned (type : String)
  | released (number : Nat)
  deriving Repr

/-- Whether a factory makes programmed blocks. -/
def Maker.isProgrammed : Maker → Bool
  | .programmed _ => true
  | _ => false

end BlockFlow.Scenario
