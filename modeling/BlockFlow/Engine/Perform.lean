import BlockFlow.Engine.Commands
import BlockFlow.Engine.Flow
import BlockFlow.Engine.Polling
import BlockFlow.Engine.Timing

/-!
# Calling hooks

A hook is called with its script: each thing the script asks for is done on the machine, and doing
it may call further hooks. The depth of calls and the length of each loop are bounded by fuel.

1. `loop`, `run`: the main loop.
2. `perform`: what is done for a request; `runScript`: what is done for a script.
3. `enter`, `callHook`: a hook of a block, which is busy until the script of the hook has ended or
   has broken off.
4. `play`, `dispose`: a script from outside of every hook, and the end of a manager.

Moving the clock beyond the last instant breaks off all that is under way. The hooks that wait for
it end there, the innermost one first, and leave their blocks as their scripts last said.
-/

namespace BlockFlow

namespace Run

variable {K : Kit}

/-! ## The main loop -/

/-- One turn of the main loop: a poll, then a check of timers. -/
def runOnce (call : Call K) (n : Nat) : Run K Unit := do
  discard (poll call)
  discard (fire call n)

/-- Turns of the main loop until it is cancelled, at most `n` of them. -/
def loop (call : Call K) : Nat → Run K Unit
  | 0 => outOfFuel
  | n + 1 => do
    if (← manager).cancelled then return
    else
      runOnce call n
      loop call n

/-- The main loop, from its start to its end. -/
def run (call : Call K) (n : Nat) : Run K Unit := do
  notify .loopStarted
  loop call n
  notify .loopStopped

/-- The main loop when it is to end before its first turn. -/
def runUntilSet : Run K Unit := do
  notify .loopStarted
  notify .loopStopped

/-! ## Requests and scripts -/

/-- What is done for a request; `n` bounds each loop. -/
def perform (call : Call K) (n : Nat) :
    (r : Request K.Factory K.Remark) → Run K r.Answer
  | .register type factory => register type factory
  | .unregister type => unregister type
  | .types => return (← manager).factories.keys
  | .add id type => add id type
  | .start id => start call id
  | .stop id => stop call id
  | .del id => del id
  | .bind id port dest => bind call id port dest
  | .conf id entry => conf call id entry
  | .clear => clear call n
  | .view id => return ((← manager).blocks.get? id).map (·.view id)
  | .views => return (← manager).views
  | .dump => return (← manager).dump
  | .dumpInto buffer => dumpInto buffer
  | .settings => return (← manager).settings
  | .flow id port payload kind => flow call n id port payload kind
  | .control id payload => control call id payload
  | .arm owner tid delay arg => arm owner tid delay arg
  | .disarm owner tid => disarm owner tid
  | .disarmAll => disarmAll
  | .fire => fire call n
  | .timers => return (← manager).timers.toList
  | .watch w => watch w
  | .unwatch w => unwatch w
  | .watches => return (← manager).watches.toList
  | .poll => poll call
  | .runOnce => runOnce call n
  | .run => run call n
  | .runUntilSet => runUntilSet
  | .cancel flag => modifyManager fun m => { m with cancelled := flag }
  | .isCancelled => return (← manager).cancelled
  | .exec kind id arg => exec call kind id arg
  | .command c => command call c
  | .line text => line call text.toList
  | .loadText text => loadText call text
  | .loadFile path => loadFile call path
  | .loadBytes bytes => loadBytes call bytes
  | .act a => do
    match ← onHost (·.act a) with
    | .noInstant => throw .clock
    | outcome => return outcome
  | .listen path => onHost (·.listen path)
  | .waiting fd => return (← host).waiting fd
  | .accept fd => onHost (·.accept fd)
  | .receive fd => onHost (·.receive fd)
  | .transmit fd bytes => onHost (·.transmit fd bytes)
  | .close fd => onHost fun h => ((), h.close fd)
  | .removeFile path => onHost (·.removeFile path)
  | .notice n => notify n
  | .remark m => record (.remark m)

/-- What is done for a script with a state: its result, and the state it is left in. The script has
control again after each answer. If something that it asks for breaks off, `leave` is done with the
state that it has then. -/
def runScript (call : Call K) (n : Nat) {S α : Type} (leave : S → Run K Unit) :
    S → Script K.Factory K.Remark S α → Run K (α × S)
  | s, .done a => return (a, s)
  | _, .keep s next => runScript call n leave s next
  | s, .call r next => do
    let x ← (perform call n r).onBreak (leave s)
    pause
    runScript call n leave s (next x)

theorem runScript_andThen (call : Call K) (n : Nat) {S α β : Type} (leave : S → Run K Unit) (s : S)
    (x : Script K.Factory K.Remark S α) (f : α → Script K.Factory K.Remark S β) :
    runScript call n leave s (x.andThen f) =
      runScript call n leave s x >>= fun (a, s) => runScript call n leave s (f a) := by
  induction x generalizing s with
  | done a => simp [Script.andThen, runScript]
  | keep t next ih => simp [Script.andThen, runScript, ih]
  | call r next ih => simp [Script.andThen, runScript, ih]

theorem runScript_mapState (call : Call K) (n : Nat) {S T α : Type} (leave : T → Run K Unit)
    (f : S → T) (s : S) (x : Script K.Factory K.Remark S α) :
    runScript call n leave (f s) (x.mapState f) =
      runScript call n (fun s => leave (f s)) s x >>= fun (a, s) => return (a, f s) := by
  induction x generalizing s with
  | done a => simp [Script.mapState, runScript]
  | keep t next ih => simp [Script.mapState, runScript, ih]
  | call r next ih => simp [Script.mapState, runScript, ih]

/-! ## Hooks -/

/-- Contents come back from a hook. If the instance is not live any more, it is released. -/
def giveBack (id : BlockId) (serial : Nat) (contents : K.Contents) : Run K Unit := do
  match (← manager).blocks.get? id with
  | some entry =>
    if entry.serial = serial then modifyEntry id ({ · with contents := some contents })
    else release serial contents
  | none => release serial contents

/-- The hook of an instance ends with contents. -/
def leave (id : BlockId) (serial : Nat) (contents : K.Contents) : Run K Unit := do
  record (.left serial)
  giveBack id serial contents

/-- A hook of a block is called. Its contents are away until the script of the hook has ended or has
broken off. -/
def enter (call : Call K) (n : Nat) (id : BlockId) (hook : Hook) : Run K (Option Reply) := do
  match (← manager).blocks.get? id with
  | none => return none
  | some entry =>
    match entry.contents with
    | none =>
      notify (.reentrantDropped id)
      return none
    | some contents => do
      modifyEntry id ({ · with contents := none })
      record (.entered entry.serial id hook)
      pause
      let (reply, contents) ←
        runScript call n (leave id entry.serial) contents (K.hook contents id hook)
      leave id entry.serial contents
      return some reply

/-- Hooks are called, at most so many inside of each other. -/
def callHook : Nat → BlockId → Hook → Run K (Option Reply)
  | 0, _, _ => outOfFuel
  | n + 1, id, hook => enter (callHook n) n id hook

/-- What is done for a script from outside of every hook, which has no state to be left in. -/
def play (n : Nat) {α : Type} (s : Script K.Factory K.Remark Unit α) : Run K α := do
  return (← runScript (callHook n) n (fun _ => pure ()) () s).1

/-! ## The end of a manager -/

/-- A block that is still live is released without more ado. -/
def abandon (id : BlockId) (entry : Entry K) : Run K Unit := do
  erase id
  match entry.contents with
  | some contents => release entry.serial contents
  | none => return

/-- Blocks are released in order without more ado. -/
def abandonAll : List (BlockId × Entry K) → Run K Unit
  | [] => return
  | (id, entry) :: rest => do
    abandon id entry
    abandonAll rest

/-- The end of a manager: its timers are disarmed, then its blocks end, then its factories go.
Blocks that are left because the end breaks off are released. -/
def dispose (n : Nat) : Run K Unit := do
  disarmAll
  (clear (callHook n) n).onBreak do abandonAll (← manager).blocks.toList
  modifyManager fun m => { m with factories := .empty }

end Run

end BlockFlow
