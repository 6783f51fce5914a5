import BlockFlow.Script

/-!
# Outcomes of requests

A scenario records what came of each thing that was asked for. An outcome is plain data, whatever
was asked for.
-/

namespace BlockFlow.Scenario

/-- What came of a step of a scenario. -/
inductive Outcome where
  | done
  /-- It broke off. -/
  | broken
  | flag (b : Bool)
  | count (n : Nat)
  | text (s : Option String)
  | names (ns : List String)
  | engineError (e : EngineError)
  | watchError (e : WatchError)
  | commandError (e : CommandError)
  | failure (f : Host.Failure)
  | unknownCode (code : Int32)
  | undecodable (fault : Json.Fault)
  | view (v : Option BlockView)
  | views (vs : List BlockView)
  | settings (s : Settings)
  | buffer (n : Nat) (bytes : List UInt8)
  | payload (p : Payload)
  | control (port : Option Port) (p : Payload)
  | timers (ts : List Timer)
  | watches (ws : List Watch)
  | host (o : Host.Outcome)
  deriving Repr

namespace Outcome

/-- The outcome of an operation on blocks or timers. -/
def ofEngine : Except EngineError Unit → Outcome
  | .ok () => .done
  | .error e => .engineError e

def ofWatch : Except WatchError Unit → Outcome
  | .ok () => .done
  | .error e => .watchError e

def ofCommand : Except CommandError Unit → Outcome
  | .ok () => .done
  | .error e => .commandError e

def ofHost {α : Type} (f : α → Outcome) : Except Host.Failure α → Outcome
  | .ok a => f a
  | .error e => .failure e

end Outcome

/-- The outcome that an answer to a request is. -/
def outcome {F M : Type} : (r : Request F M) → r.Answer → Outcome
  | .register .., _ => .done
  | .unregister _, b => .flag b
  | .types, ns => .names ns
  | .add .., x => .ofEngine x
  | .start _, x => .ofEngine x
  | .stop _, x => .ofEngine x
  | .del _, x => .ofEngine x
  | .bind .., x => .ofEngine x
  | .conf .., x => .ofEngine x
  | .clear, _ => .done
  | .view _, v => .view v
  | .views, vs => .views vs
  | .dump, s => .text s
  | .dumpInto _, (n, bytes) => .buffer n bytes
  | .settings, s => .settings s
  | .flow .., p => .payload p
  | .control .., (port, p) => .control port p
  | .arm .., x => .ofEngine x
  | .disarm .., _ => .done
  | .disarmAll, _ => .done
  | .fire, n => .count n
  | .timers, ts => .timers ts
  | .watch _, x => .ofWatch x
  | .unwatch _, _ => .done
  | .watches, ws => .watches ws
  | .poll, x => .ofHost .count x
  | .runOnce, _ => .done
  | .run, _ => .done
  | .runUntilSet, _ => .done
  | .cancel _, _ => .done
  | .isCancelled, b => .flag b
  | .exec .., x => .ofCommand x
  | .command _, x => .ofCommand x
  | .line _, x => .ofCommand x
  | .loadText _, x => .ofCommand x
  | .loadFile _, x => .ofCommand x
  | .loadBytes _, x => .ofCommand x
  | .act _, o => .host o
  | .listen _, x => .ofHost (fun _ => .done) x
  | .waiting _, n => .count n
  | .accept _, fd => .flag fd.isSome
  | .receive _, (bytes, _) => .buffer bytes.length bytes
  | .transmit .., x => .ofHost (fun _ => .done) x
  | .close _, _ => .done
  | .removeFile _, x => .ofHost (fun _ => .done) x
  | .notice _, _ => .done
  | .remark _, _ => .done

end BlockFlow.Scenario
