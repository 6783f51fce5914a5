import BlockFlow.Command.Basic
import BlockFlow.Hook
import BlockFlow.Host.Action
import BlockFlow.Notice
import BlockFlow.Settings

/-!
# Scripts

What a hook does is a script: it asks for something, goes on with the answer, and at last gives a
result. Everything that the engine offers can be asked for, so a hook can call the engine that calls
it. Something that a script asks for may break off all that is under way, so a script also says from
step to step what its block is left as.

1. `Request`, `Request.Answer`: what can be asked for, and the type of its answer. `F` is the type
   of factories, `M` that of the remarks that blocks make.
2. `Script`, `ask`, `leaveAs`: scripts and their sequence; `mapState`: a script of a part of a
   block.
-/

namespace BlockFlow

/-- Something that a script asks for. -/
inductive Request (F M : Type) where
  -- factories
  | register (type : String) (factory : F)
  | unregister (type : String)
  | types
  -- blocks
  | add (id : BlockId) (type : String)
  | start (id : BlockId)
  | stop (id : BlockId)
  | del (id : BlockId)
  | bind (id : BlockId) (port : Port) (dest : BlockId)
  | conf (id : BlockId) (conf : String)
  | clear
  | view (id : BlockId)
  | views
  | dump
  | dumpInto (buffer : List UInt8)
  | settings
  -- flows
  | flow (id : BlockId) (port : Port) (payload : Payload) (kind : FlowKind)
  | control (id : BlockId) (payload : Payload)
  -- timers
  | arm (owner : BlockId) (tid : TimerId) (delay : Duration) (arg : Payload)
  | disarm (owner : BlockId) (tid : TimerId)
  | disarmAll
  | fire
  | timers
  -- descriptors
  | watch (w : Watch)
  | unwatch (w : Watch)
  | watches
  | poll
  -- the main loop
  | runOnce
  | run
  | runUntilSet
  | cancel (flag : Bool)
  | isCancelled
  -- commands
  | exec (kind : CommandKind) (id : BlockId) (arg : Option String)
  | command (c : Command)
  | line (line : String)
  | loadText (text : String)
  | loadFile (path : String)
  | loadBytes (bytes : List UInt8)
  -- the host
  | act (a : Host.Action)
  | listen (path : String)
  | waiting (fd : Fd)
  | accept (fd : Fd)
  | receive (fd : Fd)
  | transmit (fd : Fd) (bytes : List UInt8)
  | close (fd : Fd)
  | removeFile (path : String)
  -- the record
  | notice (n : Notice)
  | remark (m : M)

/-- The type of the answer to a request. -/
@[reducible] def Request.Answer {F M : Type} : Request F M → Type
  | .register .. => Unit
  | .unregister _ => Bool
  | .types => List String
  | .add .. => Except EngineError Unit
  | .start _ => Except EngineError Unit
  | .stop _ => Except EngineError Unit
  | .del _ => Except EngineError Unit
  | .bind .. => Except EngineError Unit
  | .conf .. => Except EngineError Unit
  | .clear => Unit
  | .view _ => Option BlockView
  | .views => List BlockView
  | .dump => String
  | .dumpInto _ => Nat × List UInt8
  | .settings => Settings
  | .flow .. => Payload
  | .control .. => Option Port × Payload
  | .arm .. => Except EngineError Unit
  | .disarm .. => Unit
  | .disarmAll => Unit
  | .fire => Nat
  | .timers => List Timer
  | .watch _ => Except WatchError Unit
  | .unwatch _ => Unit
  | .watches => List Watch
  | .poll => Except Host.Failure Nat
  | .runOnce => Unit
  | .run => Unit
  | .runUntilSet => Unit
  | .cancel _ => Unit
  | .isCancelled => Bool
  | .exec .. => Except CommandError Unit
  | .command _ => Except CommandError Unit
  | .line _ => Except CommandError Unit
  | .loadText _ => Except CommandError Unit
  | .loadFile _ => Except CommandError Unit
  | .loadBytes _ => Except CommandError Unit
  | .act _ => Host.Outcome
  | .listen _ => Except Host.Failure Fd
  | .waiting _ => Nat
  | .accept _ => Option Fd
  | .receive _ => List UInt8 × Host.Ending
  | .transmit .. => Except Host.Failure Unit
  | .close _ => Unit
  | .removeFile _ => Except Host.Failure Unit
  | .notice _ => Unit
  | .remark _ => Unit

/-- A finite program that asks for things one after the other and gives a result. On its way it says
what state it is to be left in, of a type `S`. -/
inductive Script (F M S α : Type) where
  | done (a : α)
  | keep (s : S) (next : Script F M S α)
  | call (r : Request F M) (next : r.Answer → Script F M S α)

namespace Script

variable {F M S T α β : Type}

/-- The script that goes on with the result of another one. -/
def andThen : Script F M S α → (α → Script F M S β) → Script F M S β
  | .done a, f => f a
  | .keep s next, f => .keep s (andThen next f)
  | .call r next, f => .call r fun x => andThen (next x) f

instance : Monad (Script F M S) where
  pure := .done
  bind := andThen

/-- The script that asks for one thing and gives the answer. -/
def ask (r : Request F M) : Script F M S r.Answer := .call r .done

/-- The script that is to be left in a state from now on. -/
def leaveAs (s : S) : Script F M S Unit := .keep s (.done ())

def notify (n : Notice) : Script F M S Unit := ask (.notice n)

/-- The script with its states as parts of larger ones. -/
def mapState (f : S → T) : Script F M S α → Script F M T α
  | .done a => .done a
  | .keep s next => .keep (f s) (mapState f next)
  | .call r next => .call r fun x => mapState f (next x)

theorem andThen_done (s : Script F M S α) : s.andThen .done = s := by
  induction s with
  | done a => rfl
  | keep s next ih => simp only [andThen, ih]
  | call r next ih => simp only [andThen, ih]

theorem andThen_assoc {γ : Type} (s : Script F M S α) (f : α → Script F M S β)
    (g : β → Script F M S γ) : (s.andThen f).andThen g = s.andThen fun a => (f a).andThen g := by
  induction s with
  | done a => rfl
  | keep s next ih => simp only [andThen, ih]
  | call r next ih => simp only [andThen, ih]

instance : LawfulMonad (Script F M S) :=
  .mk' (Script F M S) andThen_done (fun _ _ => rfl) andThen_assoc

end Script

end BlockFlow
