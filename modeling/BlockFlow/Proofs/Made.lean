import BlockFlow.Proofs.Clock
import BlockFlow.Proofs.Operations

/-!
# What the engine does is made of

Whatever is asked of the engine, it does it by calling hooks and by a few things besides: it looks
at the manager and the host, makes notices, does something on the host, changes what the manager
keeps, has descriptors watched or not, and arms, disarms or fires timers. What each of these parts
keeps, all that is done for a request keeps.

1. `Event.IsAside`: what is recorded besides hooks; `Event.StandsAlone`: what is recorded by itself.
2. `Run.Made call`: a run that is made of such parts, with hooks called by `call`.
3. `Operates.made`: operations are made of them; `made_perform`: so is all that is done for a
   request.
-/

namespace BlockFlow

variable {K : Kit}

/-- Whether an event is neither the beginning nor the end of a hook. -/
def Event.IsAside : Event K → Prop
  | .entered .. => False
  | .left _ => False
  | _ => True

/-- Whether an event comes neither with a hook nor with a change of the manager. -/
def Event.StandsAlone : Event K → Prop
  | .armed _ | .enlisted _ => False
  | e => e.IsAside

theorem Event.StandsAlone.isAside {e : Event K} (h : e.StandsAlone) : e.IsAside := by
  cases e with
  | armed | enlisted => exact h.elim
  | _ => exact h

namespace Run

variable {α β : Type}

/-- A run that is made of the parts of the engine; hooks are called by `call`. -/
inductive Made (call : Call K) : {α : Type} → Run K α → Prop
  | pure {α : Type} (a : α) : Made call (pure a : Run K α)
  | throw {α : Type} (b : Breakdown) : Made call (throw b : Run K α)
  | outOfFuel {α : Type} : Made call (outOfFuel : Run K α)
  | bind {α β : Type} {r : Run K α} {f : α → Run K β} (hr : Made call r)
    (hf : ∀ a, Made call (f a)) : Made call (r >>= f)
  | manager : Made call manager
  | host : Made call host
  | record {e : Event K} (he : e.StandsAlone) : Made call (record e)
  | onHost {α : Type} {f : Host → α × Host} (hf : Host.Forward f) : Made call (onHost f)
  | build (factory : K.Factory) : Made call (onHost (K.build factory))
  | release (c : K.Contents) : Made call (onHost fun h => ((), K.release c h))
  | modifyManager {f : Manager K → Manager K}
    (hf : ∀ m, (f m).timers = m.timers ∧ (f m).watches = m.watches) : Made call (modifyManager f)
  | arm (owner : BlockId) (tid : TimerId) (delay : Duration) (arg : Payload) :
    Made call (arm owner tid delay arg)
  | disarm (owner : BlockId) (tid : TimerId) : Made call (disarm owner tid)
  | disarmAll : Made call disarmAll
  | watch (w : Watch) : Made call (watch w)
  | unwatch (w : Watch) : Made call (unwatch w)
  | popThen {α : Type} {now : Instant} {r : Run K α} {f : Timer → Run K α} (hr : Made call r)
    (hf : ∀ t, Made call (f t)) : Made call (popThen now r f)
  | call (id : BlockId) (hook : Hook) : Made call (call id hook)

variable {call : Call K}

/-! ## Small parts -/

theorem Made.discard {r : Run K α} (h : Made call r) : Made call (discard r) := by
  show Made call (_ <$> r)
  rw [map_eq_pure_bind]
  exact h.bind fun _ => .pure _

theorem made_notify (n : Notice) : Made call (notify n : Run K Unit) := .record trivial

theorem made_refuse {ε : Type} (n : Notice) (e : ε) :
    Made call (refuse n e : Run K (Except ε α)) :=
  (made_notify n).bind fun _ => .pure _

theorem made_modifyEntry (id : BlockId) (f : Entry K → Entry K) : Made call (modifyEntry id f) :=
  .modifyManager fun _ => ⟨rfl, rfl⟩

theorem made_erase (id : BlockId) : Made call (erase id : Run K Unit) :=
  .modifyManager fun _ => ⟨rfl, rfl⟩

theorem made_release (serial : Nat) (c : K.Contents) : Made call (release serial c) :=
  Made.bind (.record trivial) fun _ => .release c

/-! ## Blocks -/

theorem made_add (id : BlockId) (type : String) : Made call (add id type : Run K _) := by
  unfold add
  refine Made.manager.bind fun m => ?_
  split
  · exact made_refuse _ _
  split
  · exact made_refuse _ _
  split
  · exact made_refuse _ _
  refine (Made.build _).bind fun made => ?_
  cases made with
  | none => exact made_refuse _ _
  | some c =>
    refine .bind (.record trivial) fun _ => (made_notify _).bind fun _ => ?_
    exact .bind (.modifyManager fun _ => ⟨rfl, rfl⟩) fun _ => .pure _

theorem made_withIdle {id : BlockId} {f : Entry K → K.Contents → Run K (Except EngineError α)}
    (h : ∀ e c, Made call (f e c)) : Made call (withIdle id f) := by
  unfold withIdle
  refine Made.manager.bind fun m => ?_
  cases m.blocks.get? id with
  | none => exact made_refuse _ _
  | some e =>
    dsimp only
    cases e.contents with
    | none => exact made_refuse _ _
    | some c => exact h e c

theorem made_start (id : BlockId) : Made call (start call id) := by
  refine made_withIdle fun e c => ?_
  dsimp only
  cases e.state with
  | started => exact (made_notify _).bind fun _ => .pure _
  | stopped =>
    refine (made_modifyEntry _ _).bind fun _ => (made_notify _).bind fun _ => ?_
    exact (Made.call _ _).discard.bind fun _ => .pure _

theorem made_stop (id : BlockId) : Made call (stop call id) := by
  refine made_withIdle fun e c => ?_
  dsimp only
  cases e.state with
  | stopped => exact (made_notify _).bind fun _ => .pure _
  | started =>
    refine (made_modifyEntry _ _).bind fun _ => (made_notify _).bind fun _ => ?_
    exact (Made.call _ _).discard.bind fun _ => .pure _

theorem made_bind (id : BlockId) (port : Port) (dest : BlockId) :
    Made call (bind call id port dest) := by
  unfold bind
  refine Made.manager.bind fun m => ?_
  split
  · refine made_withIdle fun e c => ?_
    refine (made_modifyEntry _ _).bind fun _ => (made_notify _).bind fun _ => ?_
    exact (Made.call _ _).discard.bind fun _ => .pure _
  · exact made_refuse _ _

theorem made_conf (id : BlockId) (entry : String) : Made call (conf call id entry) :=
  made_withIdle fun _ _ =>
    (made_notify _).bind fun _ => (Made.call _ _).discard.bind fun _ => .pure _

theorem made_del (id : BlockId) : Made call (del id : Run K _) := by
  refine made_withIdle fun e c => ?_
  cases e.state with
  | started => exact made_refuse _ _
  | stopped =>
    refine Made.manager.bind fun m => ?_
    split
    · exact made_refuse _ _
    · refine (made_notify _).bind fun _ => (made_erase _).bind fun _ => ?_
      exact .bind (.record trivial) fun _ => (made_release _ _).bind fun _ => .pure _

theorem made_force (id : BlockId) : Made call (force id : Run K Unit) := by
  refine (made_notify _).bind fun _ => Made.manager.bind fun m => (made_erase _).bind fun _ => ?_
  cases m.blocks.get? id with
  | none => exact .pure _
  | some e =>
    dsimp only
    cases e.contents with
    | none => exact .pure _
    | some c => exact made_release _ _

theorem made_clear (n : Nat) : Made call (clear call n) := by
  induction n with
  | zero => exact .outOfFuel
  | succ n ih =>
    refine Made.manager.bind fun m => ?_
    cases m.blocks.leastKey? with
    | none => exact .pure _
    | some id =>
      refine (made_stop id).discard.bind fun _ => (made_del id).bind fun x => ?_
      cases x with
      | ok _ => exact ih
      | error _ => exact (made_force id).bind fun _ => ih

/-! ## Requests -/

theorem made_act (a : Host.Action) (n : Nat) : Made call (perform call n (.act a)) := by
  refine (Made.onHost (Host.forward_act a)).bind fun outcome => ?_
  cases outcome with
  | noInstant => exact .throw _
  | _ => exact .pure _

theorem made_direct (n : Nat) {r : Request K.Factory K.Remark} (hr : r.IsDirect) :
    Made call (perform call n r) := by
  cases r with
  | clear => exact made_clear n
  | watch w => exact .watch w
  | unwatch w => exact .unwatch w
  | act a => exact made_act a n
  | listen path => exact .onHost (.of_now_eq fun h => h.now_listen path)
  | accept fd => exact .onHost (.of_now_eq fun h => h.now_accept fd)
  | receive fd => exact .onHost (.of_now_eq fun h => h.now_receive fd)
  | transmit fd bytes => exact .onHost (.of_now_eq fun h => h.now_transmit fd bytes)
  | close fd => exact .onHost (Host.forward_close fd)
  | removeFile path => exact .onHost (.of_now_eq fun h => h.now_removeFile path)
  | _ => exact hr.elim

/-- Operations are made of the parts of the engine. -/
theorem Operates.made {r : Run K α} (h : Operates call Request.IsDirect r) : Made call r := by
  induction h with
  | pure a => exact .pure a
  | outOfFuel => exact .outOfFuel
  | bind _ _ hr hf => exact hr.bind hf
  | manager => exact .manager
  | host => exact .host
  | notify n => exact made_notify n
  | remark m => exact .record trivial
  | readClock => exact .onHost Host.forward_readClock
  | wait limit => exact .onHost (Host.forward_wait limit)
  | aside hf => exact .modifyManager fun m => ⟨(hf m).timers, (hf m).watches⟩
  | arm owner tid delay arg => exact .arm owner tid delay arg
  | disarm owner tid => exact .disarm owner tid
  | disarmAll => exact .disarmAll
  | popThen _ _ hr hf => exact .popThen hr hf
  | add id type => exact made_add id type
  | start id => exact made_start id
  | stop id => exact made_stop id
  | connect id port dest => exact made_bind id port dest
  | conf id entry => exact made_conf id entry
  | del id => exact made_del id
  | plain id _ => exact .call id _
  | direct n hr => exact made_direct n hr

theorem made_fire (n : Nat) : Made call (fire call n) := (operates_fire n).made

theorem made_poll : Made call (poll call) := operates_poll.made

/-- All that is done for a request is made of the parts of the engine. -/
theorem made_perform (n : Nat) (r : Request K.Factory K.Remark) : Made call (perform call n r) :=
  (operates_perform n r id).made

end Run

end BlockFlow
