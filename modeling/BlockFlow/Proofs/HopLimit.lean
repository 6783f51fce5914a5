import BlockFlow.Proofs.Moments
import BlockFlow.Proofs.Population
import BlockFlow.Proofs.Routing

/-!
# Messages under a limit of hops

A hook may answer a message with further messages, and each of these is a flow of its own that
counts its hops from the start. So the limit of hops alone bounds no run. But a block that is inside
of a hook drops what comes to it: each hook that is open takes one block away from all that happens
inside of it, and when no block is left, there is no hook to call.

1. `Kit.Relays P`: hooks that ask the engine for nothing but further messages, of contents for which
   `P` holds; `Machine.Limited`: a machine of such blocks with a limit of hops.
2. `Machine.Conserves`: open hooks and idle blocks are as many together as they were. `Run.Passes`: a
   run that comes to an end, conserves this sum at each moment, and changes contents alone.
3. `passes_flow`, `passes_control`: messages pass if the hooks that they call do;
   `passes_callHook`: hooks pass, by induction on the depth of calls that is left.
4. `messages_end`: messages come to an end.
-/

namespace BlockFlow

variable {K : Kit} {α β : Type}

/-! ## Hooks that pass messages on -/

/-- The hooks that messages call. -/
def Hook.IsMessage : Hook → Prop
  | .data _ | .control _ => True
  | _ => False

theorem FlowKind.hook_isMessage (kind : FlowKind) (payload : Payload) :
    (kind.hook payload).IsMessage := by
  cases kind <;> trivial

/-- Requests that ask the engine for a message, and those that are no matter of the engine. -/
def Request.IsRelay {F M : Type} : Request F M → Prop
  | .flow .. | .control .. => True
  | .act _ | .listen _ | .waiting _ | .accept _ | .receive _ | .transmit .. | .close _
  | .removeFile _ | .notice _ | .remark _ => True
  | _ => False

/-- Scripts that ask the engine for nothing but messages, and say that they are to be left with
contents for which `P` holds. -/
def Script.Relays {F M S α : Type} (P : S → Prop) : Script F M S α → Prop
  | .done _ => True
  | .keep s next => P s ∧ next.Relays P
  | .call r next => r.IsRelay ∧ ∀ x, (next x).Relays P

/-- Where `P` holds of the contents of a block, its hooks for messages ask the engine for nothing but
further messages, and `P` holds of what they leave. -/
def Kit.Relays (K : Kit) (P : K.Contents → Prop) : Prop :=
  ∀ c, P c → ∀ (id : BlockId) (hook : Hook), hook.IsMessage → (K.hook c id hook).Relays P

namespace Machine

/-- Flows make so many hops at most, and `P` holds of the contents of all blocks that are not inside
of a hook. -/
structure Limited (P : K.Contents → Prop) (max : UInt64) (s : Machine K) : Prop where
  maxHops : s.manager.settings.maxHops = some max
  contents {id : BlockId} {e : Entry K} {c : K.Contents} (he : s.manager.blocks.get? id = some e)
    (hc : e.contents = some c) : P c

/-- Open hooks and idle blocks are as many together as they were, no block has come or gone, and the
machine is limited. -/
structure Conserves (P : K.Contents → Prop) (max : UInt64) (s m : Machine K) : Prop where
  depth : m.stack.length + m.idle = s.stack.length + s.idle
  size : m.manager.blocks.size = s.manager.blocks.size
  limited : m.Limited P max

variable {P : K.Contents → Prop} {max : UInt64} {s t m : Machine K} {id : BlockId} {e : Entry K}
  {c : K.Contents} {hook : Hook}

theorem Settled.conserves (h : s.Settled t) (hm : t.Conserves P max m) : s.Conserves P max m where
  depth := by rw [hm.depth, h.stack, h.idle]
  size := hm.size.trans h.size
  limited := hm.limited

theorem Limited.conserves (h : s.Limited P max) : s.Conserves P max s := ⟨rfl, rfl, h⟩

theorem Conserves.trans {u : Machine K} (h : s.Conserves P max t) (h' : t.Conserves P max u) :
    s.Conserves P max u :=
  ⟨h'.depth.trans h.depth, h'.size.trans h.size, h'.limited⟩

/-- Not more hooks are opened than there are idle blocks. -/
theorem Conserves.stack_le (h : s.Conserves P max m) :
    m.stack.length ≤ s.stack.length + s.idle := by
  have := h.depth
  omega

theorem Limited.entered (h : s.Limited P max) : (s.entered e.serial id hook).Limited P max where
  maxHops := h.maxHops
  contents he' hc' := by
    rcases Keyed.of_get?_modify he' with ⟨-, _, -, rfl⟩ | ⟨-, he'⟩
    · cases hc'
    · exact h.contents he' hc'

theorem Limited.conserves_entered (h : s.Limited P max) (he : s.manager.blocks.get? id = some e)
    (hc : e.contents = some c) : s.Conserves P max (s.entered e.serial id hook) where
  depth := by
    have hidle : (s.entered e.serial id hook).idle + 1 = s.idle := idle_entered he hc
    have hstack : (s.entered e.serial id hook).stack = ⟨e.serial, id⟩ :: s.stack := rfl
    rw [hstack, List.length_cons]
    omega
  size := List.length_map _
  limited := h.entered

theorem Limited.regained (h : s.Limited P max) (f : Frame) (hP : P c) :
    (s.regained f c).Limited P max where
  maxHops := h.maxHops
  contents he' hc' := by
    rcases Keyed.of_get?_modify he' with ⟨-, _, -, rfl⟩ | ⟨-, he'⟩
    · cases hc'
      exact hP
    · exact h.contents he' hc'

end Machine

namespace Run

variable {P : K.Contents → Prop} {max : UInt64} {s : Machine K}

/-! ## Runs that pass -/

/-- A run comes to an end, and nothing but contents has changed then; on its way, hooks are opened
for idle blocks alone. -/
def Passes (P : K.Contents → Prop) (max : UInt64) (r : Run K α) (s : Machine K) : Prop :=
  r.Abides (.through (s.Conserves P max) fun t => s.Settled t ∧ t.Limited P max)
    (fun _ t => s.Settled t ∧ t.Limited P max) s

theorem passes_pure (hs : s.Limited P max) (a : α) : (pure a : Run K α).Passes P max s :=
  ⟨.refl s, hs⟩

theorem passes_throw (hs : s.Limited P max) (b : Breakdown) :
    (throw b : Run K α).Passes P max s :=
  ⟨.refl s, hs⟩

theorem passes_notify (hs : s.Limited P max) (n : Notice) :
    (notify n : Run K Unit).Passes P max s :=
  ⟨.aside s s.host [.notice n] rfl, hs.maxHops, hs.contents⟩

theorem passes_onHost (hs : s.Limited P max) (f : Host → α × Host) :
    (onHost f : Run K α).Passes P max s :=
  ⟨.aside s (f s.host).2 [] rfl, hs.maxHops, hs.contents⟩

theorem Passes.bind {r : Run K α} {f : α → Run K β} (hr : r.Passes P max s)
    (hf : ∀ a t, s.Settled t → t.Limited P max → (f a).Passes P max t) :
    (r >>= f).Passes P max s := by
  unfold Passes
  rw [abides_bind]
  exact Abides.mono hr fun a t ht => Abides.monoThrough (hf a t ht.1 ht.2)
    (fun _ => ht.1.conserves) (fun _ => And.imp_left ht.1.trans) fun _ _ => And.imp_left ht.1.trans

/-- Calls of hooks for messages pass as long as `n` is more than the idle blocks and the hops of a
flow. -/
def CallsPass (P : K.Contents → Prop) (max : UInt64) (call : Call K) (n : Nat) : Prop :=
  ∀ s : Machine K, s.Limited P max → s.idle + max.toNat < n →
    ∀ (id : BlockId) (hook : Hook), hook.IsMessage → (call id hook).Passes P max s

/-! ## Messages -/

section Messages

variable {call : Call K} {n : Nat}

theorem lt_of_hop_routed {m : Manager K} {hops : Nat} {id dest : BlockId} {port : Port}
    (hmax : m.settings.maxHops = some max) (h : m.hop hops id port = .routed dest) :
    hops < max.toNat := by
  refine Nat.lt_of_not_le fun hle => ?_
  unfold Manager.hop at h
  simp only [hmax, if_pos hle] at h
  split at h
  · cases h
  split at h
  · cases h
  split at h <;> cases h

/-- By induction on the hops that are left to a flow, which are at least as many as its limit
leaves. -/
theorem passes_follow (hcall : CallsPass P max call n) (hs : s.Limited P max)
    (hn : s.idle + max.toNat < n) {m hops : Nat} (hhops : hops ≤ max.toNat)
    (hm : max.toNat < m + hops) (kind : FlowKind) (id : BlockId) (port : Port)
    (payload : Payload) : (follow call kind m hops id port payload).Passes P max s := by
  induction m generalizing s hops id port payload with
  | zero => omega
  | succ m ih =>
    show (notify _ >>= _ : Run K Payload).Passes P max s
    refine (passes_notify hs _).bind fun _ t hst ht => ?_
    have hmax := hs.maxHops
    cases hhop : s.manager.hop hops id port with
    | routed dest =>
      have hlt : hops < max.toNat := lt_of_hop_routed hmax hhop
      have hidle : t.idle + max.toNat < n := hst.idle ▸ hn
      have hmessage := kind.hook_isMessage payload
      refine (hcall t ht hidle dest _ hmessage).bind fun reply u htu hu => ?_
      cases reply with
      | none => exact passes_pure hu payload
      | some reply =>
        dsimp only
        split
        · exact (passes_notify hu _).bind fun _ v _ hv => passes_pure hv reply.payload
        · exact ih hu (htu.idle ▸ hidle) (by omega) (by omega) dest reply.port reply.payload
    | vanished | unbound | ended | limited | lost => exact passes_pure ht payload

theorem passes_flow (hcall : CallsPass P max call n) (hs : s.Limited P max)
    (hn : s.idle + max.toNat < n) {m : Nat} (hm : max.toNat < m) (id : BlockId) (port : Port)
    (payload : Payload) (kind : FlowKind) : (flow call m id port payload kind).Passes P max s := by
  have htold : ∀ note : Notice, (do notify note; return payload : Run K Payload).Passes P max s :=
    fun note => (passes_notify hs note).bind fun _ t _ ht => passes_pure ht payload
  unfold Passes flow
  rw [abides_bind, abides_manager]
  cases s.manager.blocks.get? id with
  | none => exact htold _
  | some e =>
    dsimp only
    cases e.state with
    | stopped => exact htold _
    | started =>
      refine (passes_notify hs _).bind fun _ t hst ht => ?_
      exact passes_follow hcall ht (hst.idle ▸ hn) (Nat.zero_le _) hm kind id port payload

theorem passes_control (hcall : CallsPass P max call n) (hs : s.Limited P max)
    (hn : s.idle + max.toNat < n) (id : BlockId) (payload : Payload) :
    (control call id payload).Passes P max s := by
  show Passes P max (if s.manager.blocks.contains id then _ else _) s
  split
  · refine (hcall s hs hn id (.control payload) trivial).bind fun reply t _ ht => ?_
    cases reply with
    | none => exact passes_pure ht _
    | some reply => exact passes_pure ht _
  · exact (passes_notify hs _).bind fun _ t _ ht => passes_pure ht _

theorem passes_perform (hcall : CallsPass P max call n) (hs : s.Limited P max)
    (hn : s.idle + max.toNat < n) {m : Nat} (hm : max.toNat < m)
    {r : Request K.Factory K.Remark} (hr : r.IsRelay) : (perform call m r).Passes P max s := by
  cases r with
  | flow id port payload kind => exact passes_flow hcall hs hn hm id port payload kind
  | control id payload => exact passes_control hcall hs hn id payload
  | act a =>
    show (onHost (·.act a) >>= _ : Run K Host.Outcome).Passes P max s
    refine (passes_onHost hs _).bind fun outcome t _ ht => ?_
    cases outcome with
    | noInstant => exact passes_throw ht _
    | _ => exact passes_pure ht _
  | listen | waiting | accept | receive | transmit | close | removeFile | notice | remark =>
    exact ⟨⟨rfl, rfl, rfl⟩, hs.maxHops, hs.contents⟩
  | _ => exact hr.elim

end Messages

/-! ## Hooks -/

section Hooks

variable {call : Call K} {n : Nat} {id : BlockId} {e : Entry K} {c c' : K.Contents} {hook : Hook}
  {t : Machine K}

/-- The end of a hook in which nothing but contents has changed. -/
theorem passes_leave (he : s.manager.blocks.get? id = some e) (hc : e.contents = some c)
    (h : (s.entered e.serial id hook).Settled t) (ht : t.Limited P max) (hP : P c')
    (I B : Machine K → Prop) :
    (leave id e.serial c').Abides (.through I B) (fun _ u => s.Settled u ∧ u.Limited P max) t := by
  obtain ⟨e', he', hserial⟩ := h.exists_inside he
  unfold leave giveBack
  simp only [abides_bind, abides_record, abides_manager, he', hserial, if_true,
    abides_modifyEntry]
  exact ⟨h.regained he hc c', ht.regained ⟨e.serial, id⟩ hP⟩

/-- The script of a hook leaves the hook open, unless it breaks off and ends it. -/
theorem passes_runScript (hcall : CallsPass P max call n) (hs : s.Limited P max)
    (hn : s.idle + max.toNat < n + 1) (he : s.manager.blocks.get? id = some e)
    (hc : e.contents = some c) (h : (s.entered e.serial id hook).Settled t)
    (ht : t.Limited P max) (hP : P c') {script : Script K.Factory K.Remark K.Contents α}
    (hscript : script.Relays P) :
    (runScript call n (leave id e.serial) c' script).Abides
      (.through (s.Conserves P max) fun u => s.Settled u ∧ u.Limited P max)
      (fun p u => (s.entered e.serial id hook).Settled u ∧ u.Limited P max ∧ P p.2) t := by
  have hidle : (s.entered e.serial id hook).idle + 1 = s.idle := Machine.idle_entered he hc
  induction script generalizing t c' with
  | done a => exact ⟨h, ht, hP⟩
  | keep kept next ih => exact ih h ht hscript.1 hscript.2
  | call r next ih =>
    have hperform : (perform call n r).Passes P max t :=
      passes_perform hcall ht (by rw [h.idle]; omega) (by omega) hscript.1
    have hentered : s.Conserves P max (s.entered e.serial id hook) := hs.conserves_entered he hc
    have hconserves : ∀ m, t.Conserves P max m → s.Conserves P max m := fun m hm =>
      hentered.trans (h.conserves hm)
    unfold runScript
    rw [abides_bind]
    have hr : (perform call n r).Abides
        (.through (s.Conserves P max) fun u => t.Settled u ∧ u.Limited P max)
        (fun _ u => t.Settled u ∧ u.Limited P max) t :=
      Abides.monoThrough hperform hconserves (fun _ hu => hu) fun _ _ hu => hu
    refine Abides.mono (Abides.onBreakThen hr fun _ u hu => ?_) fun a u hu => ?_
    · exact passes_leave he hc (h.trans hu.1) hu.2 hP _ _
    · have hsu := h.trans hu.1
      rw [abides_bind, abides_pause]
      exact ⟨hentered.trans (hsu.conserves hu.2.conserves), ih a hsu hu.2 hP (hscript.2 a)⟩

/-- By induction on the depth of calls that is left: inside of a hook there is one idle block less. -/
theorem passes_callHook (hK : K.Relays P) (max : UInt64) (n : Nat) :
    CallsPass P max (callHook (K := K) n) n := by
  induction n with
  | zero => exact fun s _ hn => absurd hn (Nat.not_lt_zero _)
  | succ n ih =>
    intro s hs hn id hook hhook
    show (enter (callHook n) n id hook).Passes P max s
    unfold Passes enter
    rw [abides_bind, abides_manager]
    cases he : s.manager.blocks.get? id with
    | none => exact passes_pure hs _
    | some e =>
      dsimp only
      cases hc : e.contents with
      | none => exact (passes_notify hs _).bind fun _ t _ ht => passes_pure ht _
      | some c =>
        have hP : P c := hs.contents he hc
        have hrun := passes_runScript ih hs hn he hc (.refl (s.entered e.serial id hook)) hs.entered
          hP (hK c hP id hook hhook)
        dsimp only
        rw [abides_bind, abides_modifyEntry, abides_bind, abides_record,
          abides_bind, abides_pause, abides_bind]
        refine ⟨hs.conserves_entered he hc, hrun.mono fun result t ⟨ht, hlimited, hP'⟩ => ?_⟩
        rw [abides_bind]
        exact passes_leave he hc ht hlimited hP' _ _

end Hooks

end Run

open Run

/-! ## Direct calls -/

/-- A flow calls no more hooks than its limit leaves. -/
theorem Course.length_add_le {P : K.Contents → Prop} (hK : K.Relays P) {max : UInt64} {n : Nat}
    {kind : FlowKind} {left hops : Nat} {σ : Stage K} {vs : List Visit}
    {x : Option (Except Breakdown Payload × Machine K)}
    (h : Course (callHook (n + 1)) kind left hops σ vs x) (hs : σ.machine.Limited P max)
    (hn : σ.machine.idle + max.toNat < n + 1) (hhops : hops ≤ max.toNat) :
    vs.length + hops ≤ max.toNat := by
  induction h with
  | spent | stops => simpa using hhops
  | lacks h | breaks h | drops h =>
    have := h.mayGoOn max hs.maxHops
    rw [List.length_singleton]
    omega
  | @goes left hops σ dest serial reply t vs x h hrun hport hrest ih =>
    have hlt := h.mayGoOn max hs.maxHops
    have hpasses := passes_callHook hK max (n + 1) (σ.routed dest kind)
      ⟨hs.maxHops, hs.contents⟩ hn dest _ (kind.hook_isMessage σ.payload)
    obtain ⟨hsettled, ht⟩ := Abides.after hpasses hrun
    have := ih ht (hsettled.idle.symm ▸ hn) hlt
    rw [List.length_cons]
    omega

/-! ## Messages come to an end -/

/-- What becomes of a message: its run comes to an end, it calls so many hooks directly at most, and
hooks are nested no deeper than there are blocks. -/
structure Machine.Delivers (P : K.Contents → Prop) (max : UInt64) (s : Machine K) (r : Run K α)
    (most : Nat) : Prop where
  /-- The run is over, and nothing but contents has changed in the manager. -/
  ends : ∃ x t, s.run? r = some (x, t) ∧ s.Settled t
  /-- The direct calls are so many at most. -/
  direct : ∃ vs, r.Visits s vs ∧ vs.length ≤ most
  /-- Each hook that is opened takes one of the blocks that were not inside of one, and what is sent
  from inside of it is sent by a machine of the same kind. -/
  nested : ∀ m ∈ r.moments s, s.Conserves P max m
  /-- From outside of all hooks, they are nested no deeper than there are live blocks. -/
  outermost (h : s.stack = []) : ∀ m ∈ r.moments s, m.stack.length ≤ m.manager.blocks.size

theorem Run.Passes.delivers {P : K.Contents → Prop} {max : UInt64} {r : Run K α} {s : Machine K}
    {vs : List Visit} {most : Nat} (h : r.Passes P max s) (hvisits : r.Visits s vs)
    (hmost : vs.length ≤ most) : s.Delivers P max r most := by
  obtain ⟨halong, x, t, hrun⟩ := abides_through_iff.1 h
  have hmoments : ∀ m ∈ r.moments s, s.Conserves P max m := fun _ => halong.moment
  refine ⟨⟨x, t, hrun, (Abides.after h hrun).1⟩, ⟨vs, hvisits, hmost⟩, hmoments, ?_⟩
  intro hstack m hm
  have hle := (hmoments m hm).stack_le
  have hidle := s.idle_le_size
  rw [hstack, List.length_nil] at hle
  rw [(hmoments m hm).size]
  omega

/-- The hooks that a flow calls directly are no more than its limit. -/
theorem exists_visits_flow {P : K.Contents → Prop} (hK : K.Relays P) {max : UInt64} {n m : Nat}
    {s : Machine K} (hs : s.Limited P max) (hn : s.idle + max.toNat < n + 1) (id : BlockId)
    (port : Port) (payload : Payload) (kind : FlowKind) :
    ∃ vs, (flow (callHook (n + 1)) m id port payload kind).Visits s vs ∧
      vs.length ≤ max.toNat := by
  have hroutes := routing s n m id port payload kind
  cases he : s.manager.blocks.get? id with
  | none => exact ⟨[], (hroutes.unknown he).visits, Nat.zero_le _⟩
  | some e =>
    cases hst : e.state with
    | stopped => exact ⟨[], (hroutes.stopped he (by simp [hst])).visits, Nat.zero_le _⟩
    | started =>
      obtain ⟨vs, x, hcourse⟩ := hroutes.started he hst
      exact ⟨vs, (hroutes.course he hst hcourse).visits,
        hcourse.length_add_le hK ⟨hs.maxHops, hs.contents⟩ hn (Nat.zero_le _)⟩

/-- A control message calls one hook at most. -/
theorem exists_visits_control (n : Nat) (s : Machine K) (id : BlockId) (payload : Payload) :
    ∃ vs, (control (callHook n) id payload).Visits s vs ∧ vs.length ≤ 1 := by
  show ∃ vs, Visits (if s.manager.blocks.contains id then _ else _) s vs ∧ _
  split
  · have hcall := visits_callHook n id (.control payload) s
    have hlength : (s.visitOf id (.control payload)).length ≤ 1 := by
      unfold Machine.visitOf
      split
      · exact Nat.zero_le _
      · split
        · exact Nat.zero_le _
        · exact Nat.le_refl _
    refine ⟨_, ?_, hlength⟩
    cases hrun : s.run? (callHook n id (.control payload)) with
    | none => exact hcall.bind_of_no_result fun a t ht => by simp [hrun] at ht
    | some result =>
      obtain ⟨x, t⟩ := result
      cases x with
      | error b => exact hcall.bind_of_no_result fun a t ht => by simp [hrun] at ht
      | ok reply =>
        rw [← List.append_nil (s.visitOf _ _)]
        refine hcall.bind hrun ?_
        cases reply with
        | none => exact visits_pure _ _
        | some reply => exact visits_pure _ _
  · exact ⟨[], (visits_notify _ _).bind rfl (visits_pure _ _), Nat.zero_le _⟩

/-- **A limit of hops makes every message end.** Let flows make so many hops at most, however blocks
are bound, and let the hooks of all blocks answer messages with nothing but further messages, as
many as they like. Then every flow and every control message comes to an end, whether it was sent
from outside or inside of hooks; a flow calls no more hooks directly than its limit, and hooks are
nested no deeper than there are live blocks. -/
theorem messages_end {P : K.Contents → Prop} (hK : K.Relays P) {max : UInt64} {s : Machine K}
    (hs : s.Limited P max) {n m : Nat} (hn : s.idle + max.toNat < n) (hm : max.toNat < m) :
    (∀ (id : BlockId) (port : Port) (payload : Payload) (kind : FlowKind),
      s.Delivers P max (flow (callHook n) m id port payload kind) max.toNat) ∧
    ∀ (id : BlockId) (payload : Payload),
      s.Delivers P max (control (callHook n) id payload) 1 := by
  have hcall := passes_callHook hK max n
  refine ⟨fun id port payload kind => ?_, fun id payload => ?_⟩
  · obtain ⟨n, rfl⟩ := Nat.exists_eq_succ_of_ne_zero (Nat.ne_of_gt (Nat.zero_lt_of_lt hn))
    obtain ⟨vs, hvisits, hmost⟩ := exists_visits_flow hK hs hn id port payload kind
    exact (passes_flow hcall hs hn hm id port payload kind).delivers hvisits hmost
  · obtain ⟨vs, hvisits, hmost⟩ := exists_visits_control n s id payload
    exact (passes_control hcall hs hn id payload).delivers hvisits hmost

/-- Blocks that answer data with a flow of their own on port 1, and then let the data go on there. -/
@[reducible] def chatterers : Kit where
  Factory := Unit
  Contents := Unit
  Remark := Empty
  build := fun _ h => (some (), h)
  hook := fun _ id hook =>
    match hook with
    | .data payload => do
      discard (Script.ask (.flow id 1 payload .tx))
      return { port := 1, payload }
    | _ => return {}
  report := fun _ buffer => (0, buffer)
  release := fun _ => id

/-- Two started blocks that are bound to each other, with at most two hops for a flow. -/
def chatter : Machine chatterers :=
  let entry (serial : Nat) (dest : BlockId) : Entry chatterers :=
    { serial, type := "chatterer", state := .started, bindings := [⟨1, dest⟩], contents := some () }
  { manager := { (.fresh { maxHops := some 2 } : Manager chatterers) with
      blocks := (Keyed.empty.insert ⟨1⟩ (entry 0 ⟨2⟩)).insert ⟨2⟩ (entry 1 ⟨1⟩) }
    host := .manual }

/-- Each of the two blocks sends what it gets to the other one, and the flow ends. -/
theorem messages_end_chatter :
    chatter.Delivers (fun _ => True) 2 (flow (callHook 5) 3 ⟨1⟩ 1 .empty .rx) 2 := by
  have hrelays : chatterers.Relays fun _ => True := by
    intro c _ id hook hhook
    cases hook with
    | data payload => exact ⟨trivial, fun _ => trivial⟩
    | _ => trivial
  have hlimited : chatter.Limited (fun _ => True) 2 := ⟨rfl, fun _ _ => trivial⟩
  exact (messages_end hrelays hlimited (n := 5) (m := 3) (by decide) (by decide)).1 ⟨1⟩ 1 .empty .rx

end BlockFlow
