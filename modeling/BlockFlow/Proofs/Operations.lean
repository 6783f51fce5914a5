import BlockFlow.Engine.Perform
import BlockFlow.Proofs.Step

/-!
# What a request comes down to

However a request reaches the engine, as a command, a line, a file, a flow, a timer or a poll, what
is done for it comes down to a few operations: the six operations on one block, calls of hooks for
which nothing is noted about the block, changes of timers, and things that are told. Besides these
there are requests that reach the tables of watches and the host directly, or all blocks at once.
What each of these keeps, everything keeps that the engine does.

1. `popThen`: the first timer that has expired leaves the list.
2. `Request.IsDirect`: the requests that are not made of operations.
3. `Run.Operates call P`: a run that is made of operations, and of direct requests for which `P`
   holds.
4. `operates_perform`: what is done for every other request is made of operations.
-/

namespace BlockFlow

variable {K : Kit} {α β : Type}

/-- A request that is done in one go, at the host, at the table of watches or for all blocks. -/
def Request.IsDirect {F M : Type} : Request F M → Prop
  | .clear | .watch _ | .unwatch _ | .act _ | .listen _ | .accept _ | .receive _ | .transmit ..
  | .close _ | .removeFile _ => True
  | _ => False

/-- The manager with other factories or another answer to whether its loop is cancelled. -/
structure Manager.SameTables (m m' : Manager K) : Prop extends m.SameBlocks m' where
  timers : m'.timers = m.timers
  watches : m'.watches = m.watches

namespace Run

/-- The first timer leaves the list if it has expired at a time, and `f` goes on with it; if none
has expired, `r` goes on. -/
def popThen (now : Instant) (r : Run K α) (f : Timer → Run K α) : Run K α := do
  let (timer, timers) := (← manager).timers.popExpired now
  match timer with
  | none => r
  | some t => do
    modifyManager fun m => { m with timers }
    f t

theorem fireUntil_succ (call : Call K) (now : Instant) (n fired : Nat) :
    fireUntil call now (n + 1) fired = popThen now (return fired) fun t =>
      deliverTimer call t >>= fun _ => fireUntil call now n (fired + 1) := rfl

/-- A run that is made of operations; hooks are called by `call`. -/
inductive Operates (call : Call K) (P : Request K.Factory K.Remark → Prop) :
    {α : Type} → Run K α → Prop
  | pure {α : Type} (a : α) : Operates call P (pure a : Run K α)
  | outOfFuel {α : Type} : Operates call P (outOfFuel : Run K α)
  | bind {α β : Type} {r : Run K α} {f : α → Run K β} (hr : Operates call P r)
    (hf : ∀ a, Operates call P (f a)) : Operates call P (r >>= f)
  -- what is looked at and told
  | manager : Operates call P manager
  | host : Operates call P host
  | notify (n : Notice) : Operates call P (notify n)
  | remark (m : K.Remark) : Operates call P (record (.remark m))
  | readClock : Operates call P (onHost (·.readClock))
  | wait (limit : Duration) : Operates call P (onHost fun h => ((), h.wait limit))
  | aside {f : Manager K → Manager K} (hf : ∀ m : Manager K, m.SameTables (f m)) :
    Operates call P (modifyManager f)
  -- timers
  | arm (owner : BlockId) (tid : TimerId) (delay : Duration) (arg : Payload) :
    Operates call P (arm owner tid delay arg)
  | disarm (owner : BlockId) (tid : TimerId) : Operates call P (disarm owner tid)
  | disarmAll : Operates call P disarmAll
  | popThen {α : Type} {now : Instant} {r : Run K α} {f : Timer → Run K α}
    (hr : Operates call P r) (hf : ∀ t, Operates call P (f t)) : Operates call P (popThen now r f)
  -- blocks
  | add (id : BlockId) (type : String) : Operates call P (add id type)
  | start (id : BlockId) : Operates call P (start call id)
  | stop (id : BlockId) : Operates call P (stop call id)
  | connect (id : BlockId) (port : Port) (dest : BlockId) :
    Operates call P (Run.bind call id port dest)
  | conf (id : BlockId) (entry : String) : Operates call P (conf call id entry)
  | del (id : BlockId) : Operates call P (del id)
  | plain (id : BlockId) {hook : Hook} (h : hook.IsPlain) : Operates call P (call id hook)
  -- requests that are done in one go
  | direct (n : Nat) {r : Request K.Factory K.Remark} (hr : P r) :
    Operates call P (perform call n r)

variable {call : Call K} {P : Request K.Factory K.Remark → Prop}

/-! ## Small parts -/

theorem Operates.discard {r : Run K α} (h : Operates call P r) : Operates call P (discard r) := by
  show Operates call P (_ <$> r)
  rw [map_eq_pure_bind]
  exact h.bind fun _ => .pure _

theorem operates_refuse {ε : Type} (n : Notice) (e : ε) :
    Operates call P (refuse n e : Run K (Except ε α)) :=
  (Operates.notify n).bind fun _ => .pure _

theorem operates_notifyAll (ns : List Notice) : Operates call P (notifyAll ns) := by
  induction ns with
  | nil => exact .pure _
  | cons n ns ih => exact (Operates.notify n).bind fun _ => ih

theorem operates_register (type : String) (factory : K.Factory) :
    Operates call P (register type factory) := by
  have hlast : Operates call P (modifyManager fun m : Manager K =>
      { m with factories := m.factories.insert type factory }) :=
    .aside fun _ => ⟨⟨rfl, rfl, rfl⟩, rfl, rfl⟩
  unfold register
  refine Operates.manager.bind fun m => ?_
  split
  · exact (Operates.notify _).bind fun _ => hlast
  · exact (Operates.notify _).bind fun _ => hlast

theorem operates_unregister (type : String) : Operates call P (unregister type) := by
  refine Operates.manager.bind fun m => Operates.bind ?_ fun _ => .pure _
  exact .aside fun _ => ⟨⟨rfl, rfl, rfl⟩, rfl, rfl⟩

theorem operates_dumpInto (buffer : List UInt8) : Operates call P (dumpInto buffer) := by
  refine Operates.manager.bind fun m => ?_
  show Operates call P (if _ then _ else _)
  split
  · exact (Operates.notify _).bind fun _ => .pure _
  · exact (Operates.pure _).bind fun _ => .pure _

/-! ## Flows, timers and descriptors -/

theorem hook_isPlain (kind : FlowKind) (payload : Payload) : (kind.hook payload).IsPlain := by
  cases kind <;> trivial

theorem operates_follow (kind : FlowKind) (n hops : Nat) (id : BlockId) (port : Port)
    (payload : Payload) : Operates call P (follow call kind n hops id port payload) := by
  induction n generalizing hops id port payload with
  | zero => exact .outOfFuel
  | succ n ih =>
    refine Operates.manager.bind fun m => (Operates.notify _).bind fun _ => ?_
    cases m.hop hops id port with
    | routed dest =>
      refine (Operates.plain dest (hook_isPlain kind payload)).bind fun reply => ?_
      cases reply with
      | none => exact .pure _
      | some reply =>
        show Operates call P (if reply.port = stopPort then _ else _)
        split
        · exact (Operates.notify _).bind fun _ => .pure _
        · exact ih _ _ _ _
    | vanished | unbound | ended | limited | lost => exact .pure _

theorem operates_flow (n : Nat) (id : BlockId) (port : Port) (payload : Payload) (kind : FlowKind) :
    Operates call P (flow call n id port payload kind) := by
  refine Operates.manager.bind fun m => ?_
  cases m.blocks.get? id with
  | none => exact (Operates.notify _).bind fun _ => .pure _
  | some e =>
    dsimp only
    cases e.state with
    | stopped => exact (Operates.notify _).bind fun _ => .pure _
    | started => exact (Operates.notify _).bind fun _ => operates_follow _ _ _ _ _ _

theorem operates_control (id : BlockId) (payload : Payload) :
    Operates call P (control call id payload) := by
  refine Operates.manager.bind fun m => ?_
  split
  · have hcall : Operates call P (call id (.control payload)) := .plain id trivial
    refine hcall.bind fun reply => ?_
    cases reply with
    | none => exact .pure _
    | some reply => exact .pure _
  · exact (Operates.notify _).bind fun _ => .pure _

theorem operates_deliverTimer (t : Timer) : Operates call P (deliverTimer call t) := by
  refine Operates.manager.bind fun m => ?_
  have hcall : Operates call P (call t.owner (.timer t)) := .plain t.owner trivial
  split
  · exact (Operates.notify _).bind fun _ => hcall.discard
  · exact .notify _

theorem operates_fireUntil (now : Instant) (n fired : Nat) :
    Operates call P (fireUntil call now n fired) := by
  induction n generalizing fired with
  | zero => exact .outOfFuel
  | succ n ih =>
    rw [fireUntil_succ]
    exact .popThen (.pure _) fun t => (operates_deliverTimer t).bind fun _ => ih _

theorem operates_fire (n : Nat) : Operates call P (fire call n) :=
  Operates.readClock.bind fun _ => operates_fireUntil _ _ _

theorem operates_deliverEvent (w : Watch) : Operates call P (deliverEvent call w) := by
  refine Operates.manager.bind fun m => ?_
  have hcall : Operates call P (call w.owner (.event w)) := .plain w.owner trivial
  split
  · exact .notify _
  split
  · exact .notify _
  · exact hcall.discard

theorem operates_deliverEvents (ws : List Watch) : Operates call P (deliverEvents call ws) := by
  induction ws with
  | nil => exact .pure _
  | cons w ws ih => exact (operates_deliverEvent w).bind fun _ => ih

theorem operates_poll : Operates call P (poll call) := by
  refine Operates.manager.bind fun m => Operates.host.bind fun h => ?_
  refine (operates_notifyAll _).bind fun _ => ?_
  split
  · exact operates_refuse _ _
  · exact (Operates.wait _).bind fun _ => .pure _
  · refine (Operates.notify _).bind fun _ => ?_
    exact (operates_deliverEvents _).bind fun _ => .pure _

/-! ## Commands -/

theorem operates_obey (id : BlockId) (order : Order) : Operates call P (obey call id order) := by
  cases order with
  | add type => exact .add id type
  | init =>
    refine Operates.manager.bind fun m => ?_
    split
    · exact (Operates.notify _).bind fun _ => .pure _
    · exact operates_refuse _ _
  | conf entry => exact .conf id entry
  | bind port dest => exact .connect id port dest
  | start => exact .start id
  | stop => exact .stop id
  | del => exact .del id

theorem operates_exec (kind : CommandKind) (id : BlockId) (arg : Option String) :
    Operates call P (exec call kind id arg) := by
  refine (Operates.notify _).bind fun _ => ?_
  split
  · exact operates_refuse _ _
  split
  · exact operates_refuse _ _
  · exact operates_refuse _ _
  · exact (operates_obey id _).bind fun _ => .pure _

theorem operates_line (cs : List Char) : Operates call P (line call cs) := by
  unfold line
  split
  · exact operates_refuse _ _
  · exact operates_refuse _ _
  · exact operates_exec _ _ _

theorem operates_applyLines (number : Nat) (tally : Tally)
    (lines : List (Except Text.Utf8.Damage (List Char))) :
    Operates call P (applyLines call number tally lines) := by
  induction lines generalizing number tally with
  | nil => exact .pure _
  | cons l lines ih =>
    cases l with
    | error damage => exact (Operates.notify _).bind fun _ => ih _ _
    | ok cs =>
      unfold applyLines
      split
      · exact ih _ _
      · exact (operates_line cs).bind fun _ => ih _ _

theorem operates_loadText (text : String) : Operates call P (loadText call text) :=
  (operates_applyLines _ _ _).bind fun _ => .pure _

theorem operates_loadFile (path : String) : Operates call P (loadFile call path) := by
  refine Operates.host.bind fun h => ?_
  cases h.files.read path with
  | error cause => exact operates_refuse _ _
  | ok content =>
    refine (operates_applyLines _ _ _).bind fun tally => ?_
    dsimp only
    cases tally.result with
    | ok _ => exact (Operates.notify _).bind fun _ => .pure _
    | error cause => exact (Operates.notify _).bind fun _ => .pure _

theorem operates_applyCommands (tally : Tally) (cs : List Command) :
    Operates call P (applyCommands call tally cs) := by
  induction cs generalizing tally with
  | nil => exact .pure _
  | cons c cs ih => exact (operates_exec _ _ _).bind fun _ => ih _

theorem operates_loadBytes (bytes : List UInt8) : Operates call P (loadBytes call bytes) := by
  unfold loadBytes
  split
  · exact operates_refuse _ _
  · exact operates_exec _ _ _
  · exact (operates_applyCommands _ _).bind fun _ => .pure _

/-! ## The main loop and requests -/

theorem operates_runOnce (n : Nat) : Operates call P (runOnce call n) :=
  operates_poll.discard.bind fun _ => (operates_fire n).discard

theorem operates_loop (n : Nat) : Operates call P (loop call n) := by
  induction n with
  | zero => exact .outOfFuel
  | succ n ih =>
    refine Operates.manager.bind fun m => ?_
    split
    · exact .pure _
    · exact (operates_runOnce n).bind fun _ => ih

theorem operates_run (n : Nat) : Operates call P (run call n) :=
  (Operates.notify _).bind fun _ => (operates_loop n).bind fun _ => .notify _

/-- All that is done for a request is made of operations, unless it is done in one go. -/
theorem operates_perform (n : Nat) (r : Request K.Factory K.Remark) (hr : r.IsDirect → P r) :
    Operates call P (perform call n r) := by
  cases r with
  | register type factory => exact operates_register type factory
  | unregister type => exact operates_unregister type
  | add id type => exact .add id type
  | start id => exact .start id
  | stop id => exact .stop id
  | del id => exact .del id
  | bind id port dest => exact .connect id port dest
  | conf id entry => exact .conf id entry
  | dumpInto buffer => exact operates_dumpInto buffer
  | flow id port payload kind => exact operates_flow n id port payload kind
  | control id payload => exact operates_control id payload
  | arm owner tid delay arg => exact .arm owner tid delay arg
  | disarm owner tid => exact .disarm owner tid
  | disarmAll => exact .disarmAll
  | fire => exact operates_fire n
  | poll => exact operates_poll
  | runOnce => exact operates_runOnce n
  | run => exact operates_run n
  | runUntilSet => exact (Operates.notify _).bind fun _ => .notify _
  | cancel flag =>
    show Operates call P (modifyManager fun m : Manager K => { m with cancelled := flag })
    exact .aside fun _ => ⟨⟨rfl, rfl, rfl⟩, rfl, rfl⟩
  | exec kind id arg => exact operates_exec kind id arg
  | command c => exact operates_exec _ _ _
  | line text => exact operates_line _
  | loadText text => exact operates_loadText text
  | loadFile path => exact operates_loadFile path
  | loadBytes bytes => exact operates_loadBytes bytes
  | notice n => exact .notify n
  | remark m => exact .remark m
  | waiting fd => exact Operates.host.bind fun _ => .pure _
  | types | view | views | dump | settings | timers | watches | isCancelled =>
    exact Operates.manager.bind fun _ => .pure _
  | clear | watch | unwatch | act | listen | accept | receive | transmit | close | removeFile =>
    exact .direct n (hr trivial)

end Run

end BlockFlow
