import BlockFlow.Keyed
import BlockFlow.Text.Numeral

/-!
# Identifiers and codes

1. `BlockId`, `Port`: blocks and their ports are numbered with signed 32-bit integers. Number zero
   is no block but the sink, where flows end.
2. `State`, `FlowKind`, `CommandKind`: states of blocks, kinds of flows and kinds of commands with
   their lasting codes, names and labels.
-/

namespace BlockFlow

def textOfInt32 (n : Int32) : String := String.ofList (Text.Numeral.ofInt n.toInt)

def textOfNat (n : Nat) : String := String.ofList (Text.Numeral.ofNat n)

/-! ## Blocks and ports -/

/-- The number of a block. -/
structure BlockId where
  value : Int32
  deriving Repr, DecidableEq, Inhabited

/-- The number of a port. -/
abbrev Port := Int32

/-- The number of an open descriptor. -/
abbrev Fd := Int32

namespace BlockId

/-- The destination where flows end; it is never a block. -/
def sink : BlockId := ⟨0⟩

def isSink (id : BlockId) : Bool := id = sink

def toText (id : BlockId) : String := textOfInt32 id.value

instance : LT BlockId := ⟨fun a b => a.value < b.value⟩

instance (a b : BlockId) : Decidable (a < b) := inferInstanceAs (Decidable (a.value < b.value))

theorem lt_def {a b : BlockId} : a < b ↔ a.value < b.value := Iff.rfl

instance : KeyOrder BlockId where
  irrefl a := KeyOrder.irrefl a.value
  trans := KeyOrder.trans (κ := Int32)
  eq_of_not_lt {a b} hab hba := by
    have h : a.value = b.value := KeyOrder.eq_of_not_lt hab hba
    cases a; cases b; simp_all

end BlockId

/-- The port whose number ends a flow when a handler returns it. -/
def stopPort : Port := 0

/-! ## States, flows and commands -/

/-- Whether a block is running. -/
inductive State where
  | stopped
  | started
  deriving Repr, DecidableEq, Inhabited

namespace State

/-- The lasting code of a state. -/
def code : State → Nat
  | .stopped => 0
  | .started => 1

def name : State → String
  | .stopped => "Stopped"
  | .started => "Started"

def label : State → String
  | .stopped => "BLOCK_STATE_STOPPED"
  | .started => "BLOCK_STATE_STARTED"

def named? (s : String) : Option State := [stopped, started].find? (·.name = s)

end State

/-- What travels along a path: data in one of two directions, or notifications. -/
inductive FlowKind where
  | rx
  | tx
  | notif
  deriving Repr, DecidableEq, Inhabited

namespace FlowKind

def name : FlowKind → String
  | .rx => "Rx"
  | .tx => "Tx"
  | .notif => "Notif"

def label : FlowKind → String
  | .rx => "FLOW_RX"
  | .tx => "FLOW_TX"
  | .notif => "FLOW_NOTIF"

def named? (s : String) : Option FlowKind := [rx, tx, notif].find? (·.name = s)

end FlowKind

/-- What a command does. -/
inductive CommandKind where
  | add
  | init
  | conf
  | bind
  | start
  | stop
  | del
  deriving Repr, DecidableEq, Inhabited

namespace CommandKind

/-- All kinds of commands, in the order of their codes. -/
def all : List CommandKind := [add, init, conf, bind, start, stop, del]

/-- The lasting code of a kind of command. -/
def code : CommandKind → Nat
  | .add => 0
  | .init => 1
  | .conf => 2
  | .bind => 3
  | .start => 4
  | .stop => 5
  | .del => 6

/-- The kind of command that a code stands for. -/
def ofCode? (n : Int32) : Option CommandKind :=
  if n < 0 then none else all[n.toInt.toNat]?

def name : CommandKind → String
  | .add => "Add"
  | .init => "Init"
  | .conf => "Conf"
  | .bind => "Bind"
  | .start => "Start"
  | .stop => "Stop"
  | .del => "Del"

def label : CommandKind → String
  | .add => "BLOCK_COMMAND_ADD"
  | .init => "BLOCK_COMMAND_INIT"
  | .conf => "BLOCK_COMMAND_CONF"
  | .bind => "BLOCK_COMMAND_BIND"
  | .start => "BLOCK_COMMAND_START"
  | .stop => "BLOCK_COMMAND_STOP"
  | .del => "BLOCK_COMMAND_DEL"

def named? (s : String) : Option CommandKind := all.find? (·.name = s)

theorem ofCode?_code (k : CommandKind) : ofCode? (Int32.ofNat k.code) = some k := by
  cases k <;> decide

end CommandKind

end BlockFlow
