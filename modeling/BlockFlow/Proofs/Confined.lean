import BlockFlow.Proofs.CalmHook
import BlockFlow.Proofs.Population

/-!
# Commands are confined to their blocks

Without strict binding a command looks at nothing but its own block and the factories, and changes
nothing but its own block: the answer, the hook that is called and what becomes of the block are
functions of what is known of the block before. This takes hooks that leave the engine alone and
know nothing but the contents of their block.

1. `Standing`, `Machine.standing?`, `Machine.calls`: what is known of a block, and the hooks of it
   that were called.
2. `Kit.Rule`, `Machine.Obeys`: hooks that know their block alone.
3. `Upshot`, `Order.upshot`, `upshot`: what comes of a command, as a function of its block.
4. `Machine.Confined`, `Upshot.Fits`: that this comes of it, and that nothing else is changed.
5. `fits_add` and its companions, `fits_exec`: so it is with every command.
-/

namespace BlockFlow

variable {K : Kit}

/-! ## What is known of a block -/

/-- What is known of a live block besides the number of its instance. -/
structure Standing (K : Kit) where
  type : String
  state : State
  bindings : List Binding
  contents : Option K.Contents

def Entry.standing (e : Entry K) : Standing K := ⟨e.type, e.state, e.bindings, e.contents⟩

/-- The hook of a block of some number that an event is the beginning of. -/
def Event.callOf? (id : BlockId) : Event K → Option Hook
  | .entered _ id' hook => if id' = id then some hook else none
  | _ => none

namespace Machine

/-- What is known of the live block of a number. -/
def standing? (s : Machine K) (id : BlockId) : Option (Standing K) :=
  (s.manager.blocks.get? id).map Entry.standing

/-- The hooks that were called of the blocks of a number, in order. -/
def calls (s : Machine K) (id : BlockId) : List Hook := s.deeds.filterMap (·.callOf? id)

/-- What the factory of a type builds, if there is one. -/
def make? (s : Machine K) (type : String) : Option (Option K.Contents) :=
  (s.manager.factories.get? type).map fun factory => (K.build factory s.host).1

theorem calls_append {s t : Machine K} {es : List (Event K)} (h : t.deeds = s.deeds ++ es)
    (id : BlockId) : t.calls id = s.calls id ++ es.filterMap (·.callOf? id) := by
  unfold calls
  rw [h, List.filterMap_append]

end Machine

/-! ## Hooks that know their block alone -/

/-- A script that leaves `c'` if it has `c` at its beginning, whatever it is answered. -/
def Script.Leaves {F M S α : Type} : Script F M S α → S → S → Prop
  | .done _, c, c' => c = c'
  | .keep c next, _, c' => next.Leaves c c'
  | .call _ next, c, c' => ∀ x, (next x).Leaves c c'

/-- What hooks are to leave, as a function of the contents they are called with. -/
abbrev Kit.Rule (K : Kit) := K.Contents → BlockId → Hook → K.Contents

/-- The lifecycle hooks of the live block of a number leave the engine alone, and leave contents by
a rule. -/
def Machine.Obeys (s : Machine K) (rule : K.Rule) (id : BlockId) : Prop :=
  ∀ e c, s.manager.blocks.get? id = some e → e.contents = some c → ∀ hook : Hook,
    hook.IsLifecycle → (K.hook c id hook).IsCalm ∧ (K.hook c id hook).Leaves c (rule c id hook)

/-- What becomes of a host by one thing that commands have done on it: something is built or
released, or the script of a hook that leaves the engine alone comes to its end. -/
inductive Kit.Touches (K : Kit) : Host → Host → Prop
  | nothing (h : Host) : K.Touches h h
  | build (factory : K.Factory) (h : Host) : K.Touches h (K.build factory h).2
  | release (c : K.Contents) (h : Host) : K.Touches h (K.release c h)
  | hook {c : K.Contents} {id : BlockId} {hook : Hook} (hcalm : (K.hook c id hook).IsCalm)
    {call : Call K} {n : Nat} {leave : K.Contents → Run K Unit} {s t : Machine K}
    {x : Except Breakdown (Reply × K.Contents)}
    (hrun : s.run? (Run.runScript call n leave c (K.hook c id hook)) = some (x, t)) :
    K.Touches s.host t.host

/-- What a factory builds does not depend on earlier calls of factories and hooks. -/
def Kit.IsSteady (K : Kit) (factory : K.Factory) : Prop :=
  ∀ h h', K.Touches h h' → (K.build factory h').1 = (K.build factory h).1

/-! ## What comes of a command -/

/-- What comes of a command: its answer, the hooks of its block that are called, and what is known
of the block afterwards. -/
structure Upshot (K : Kit) (ε : Type) where
  answer : Except ε Unit
  hooks : List Hook := []
  block : Option (Standing K)

/-- A hook is called of a block with some contents. -/
def Standing.called (b : Standing K) (rule : K.Rule) (id : BlockId) (hook : Hook) (c : K.Contents) :
    Upshot K EngineError :=
  ⟨.ok (), [hook], some { b with contents := some (rule c id hook) }⟩

/-- What comes of a command that needs a live block which is not inside of one of its hooks. -/
def Upshot.ofIdle (id : BlockId) (g : Standing K → K.Contents → Upshot K EngineError) :
    Option (Standing K) → Upshot K EngineError
  | none => ⟨.error (.blockNotFound id), [], none⟩
  | some b =>
    match b.contents with
    | none => ⟨.error (.blockBusy id), [], some b⟩
    | some c => g b c

/-- What comes of an operation on a block. What factories make and what hooks leave is given. -/
def Order.upshot (make : String → Option (Option K.Contents)) (rule : K.Rule) (id : BlockId)
    (block : Option (Standing K)) : Order → Upshot K EngineError
  | .add type =>
    if block.isSome then ⟨.error (.duplicateBlock id), [], block⟩
    else
      match make type with
      | none => ⟨.error (.unknownType type), [], block⟩
      | some none => ⟨.error (.constructionFailed type), [], block⟩
      | some (some c) => ⟨.ok (), [], some ⟨type, .stopped, [], some c⟩⟩
  | .init => ⟨if block.isSome then .ok () else .error (.blockNotFound id), [], block⟩
  | .conf entry => Upshot.ofIdle id (fun b c => b.called rule id (.configure entry) c) block
  | .bind port dest =>
    Upshot.ofIdle id (fun b c =>
      Standing.called { b with bindings := b.bindings ++ [⟨port, dest⟩] } rule id
        (.bind port dest) c) block
  | .start =>
    Upshot.ofIdle id (fun b c =>
      match b.state with
      | .started => ⟨.ok (), [], some b⟩
      | .stopped => Standing.called { b with state := .started } rule id .start c) block
  | .stop =>
    Upshot.ofIdle id (fun b c =>
      match b.state with
      | .started => Standing.called { b with state := .stopped } rule id .stop c
      | .stopped => ⟨.ok (), [], some b⟩) block
  | .del =>
    Upshot.ofIdle id (fun b _ =>
      match b.state with
      | .started => ⟨.error (.blockStarted id), [], some b⟩
      | .stopped =>
        match make b.type with
        | none => ⟨.error (.unknownType b.type), [], some b⟩
        | some _ => ⟨.ok (), [], none⟩) block

/-- What comes of a command. -/
def upshot (make : String → Option (Option K.Contents)) (rule : K.Rule) (kind : CommandKind)
    (id : BlockId) (arg : Option String) (block : Option (Standing K)) : Upshot K CommandError :=
  if id.isSink then ⟨.error (.forbiddenId id), [], block⟩
  else
    match Order.ofArgument kind arg with
    | .error .missing => ⟨.error (.missingArgument kind), [], block⟩
    | .error (.notABinding arg) => ⟨.error (.invalidBind arg), [], block⟩
    | .ok order =>
      let x := order.upshot make rule id block
      ⟨x.answer.mapError .engine, x.hooks, x.block⟩

/-! ## Commands and what comes of them -/

/-- From one machine to another no block has changed but that of a number, and nothing else that the
manager keeps but the number of instances; one thing at most was done on the host. -/
structure Machine.Confined (id : BlockId) (s t : Machine K) : Prop where
  blocks {id' : BlockId} (hid : id' ≠ id) :
    t.manager.blocks.get? id' = s.manager.blocks.get? id'
  calls {id' : BlockId} (hid : id' ≠ id) : t.calls id' = s.calls id'
  manager : t.manager = { s.manager with blocks := t.manager.blocks, built := t.manager.built }
  host : K.Touches s.host t.host

/-- What a command for the block of a number came to is what was to come of it. -/
structure Upshot.Fits {ε : Type} (x : Upshot K ε) (id : BlockId) (s : Machine K)
    (a : Except ε Unit) (t : Machine K) : Prop where
  answer : a = x.answer
  calls : t.calls id = s.calls id ++ x.hooks
  block : t.standing? id = x.block
  confined : s.Confined id t

namespace Machine

variable {s t u : Machine K} {id : BlockId} {ε : Type}

theorem standing?_eq_none (h : s.manager.blocks.get? id = none) : s.standing? id = none := by
  rw [standing?, h, Option.map_none]

theorem standing?_eq_some {e : Entry K} (h : s.manager.blocks.get? id = some e) :
    s.standing? id = some e.standing := by
  rw [standing?, h, Option.map_some]

/-- What is known of the block of a number tells whether there is one. -/
theorem contains_eq (s : Machine K) (id : BlockId) :
    s.manager.blocks.contains id = (s.standing? id).isSome := by
  rw [Keyed.contains, standing?, Option.isSome_map]

/-- A command whose block alone changes, and of which alone hooks are called, has come to what its
answer, these hooks and the block say. -/
theorem fits_of_get? {x : Upshot K ε} {a : Except ε Unit} (hanswer : a = x.answer)
    {o : Option (Entry K)} (ho : o.map Entry.standing = x.block)
    (hget : ∀ id', t.manager.blocks.get? id' = if id = id' then o else s.manager.blocks.get? id')
    {es : List (Event K)} (hdeeds : t.deeds = s.deeds ++ es)
    (hcalls : ∀ id', es.filterMap (·.callOf? id') = if id = id' then x.hooks else [])
    (hmanager : t.manager =
      { s.manager with blocks := t.manager.blocks, built := t.manager.built })
    (hhost : K.Touches s.host t.host) :
    x.Fits id s a t where
  answer := hanswer
  calls := by rw [calls_append hdeeds, hcalls, if_pos rfl]
  block := by rw [standing?, hget, if_pos rfl, ho]
  confined :=
    { blocks := fun hid => by rw [hget, if_neg (Ne.symm hid)]
      calls := fun hid => by
        rw [calls_append hdeeds, hcalls, if_neg (Ne.symm hid), List.append_nil]
      manager := hmanager
      host := hhost }

/-- A command that changes neither the manager nor instances has come to its answer alone. -/
theorem fits_answer (a : Except ε Unit) (hmanager : t.manager = s.manager)
    (hdeeds : t.deeds = s.deeds) (hhost : K.Touches s.host t.host) :
    (⟨a, [], s.standing? id⟩ : Upshot K ε).Fits id s a t := by
  have hget (id' : BlockId) : t.manager.blocks.get? id' =
      if id = id' then s.manager.blocks.get? id else s.manager.blocks.get? id' := by
    rw [hmanager]
    split
    · next hid => rw [hid]
    · rfl
  have hnone : t.deeds = s.deeds ++ [] := by rw [hdeeds, List.append_nil]
  exact fits_of_get? rfl rfl hget hnone (fun _ => (ite_self _).symm) (by rw [hmanager]) hhost

end Machine

namespace Run

variable {n : Nat} {s : Machine K} {rule : K.Rule} {id : BlockId}

theorem fits_refuse {ε : Type} (note : Notice) (e : ε) :
    (refuse note e).Abides .total ((⟨.error e, [], s.standing? id⟩ : Upshot K ε).Fits id s) s :=
  Machine.fits_answer _ rfl rfl (.nothing _)

theorem fits_notify {ε : Type} (note : Notice) (a : Except ε Unit) :
    (do notify note; return a).Abides .total ((⟨a, [], s.standing? id⟩ : Upshot K ε).Fits id s) s :=
  Machine.fits_answer _ rfl rfl (.nothing _)

theorem fits_add (hid : ¬ id.isSink) (type : String) :
    (add id type).Abides .total
      (((Order.add type).upshot s.make? rule id (s.standing? id)).Fits id s) s := by
  unfold add
  rw [Order.upshot, abides_bind, abides_manager, if_neg hid, s.contains_eq id]
  split
  · exact fits_refuse _ _
  · unfold Machine.make?
    cases s.manager.factories.get? type with
    | none => exact fits_refuse _ _
    | some factory =>
      simp only [abides_bind, abides_onHost, Option.map_some]
      have htouch : K.Touches s.host (K.build factory s.host).2 := .build factory s.host
      cases (K.build factory s.host).1 with
      | none => exact Machine.fits_answer _ rfl rfl htouch
      | some c =>
        simp only [abides_bind, abides_record, abides_notify, abides_modifyManager, abides_pure]
        exact Machine.fits_of_get? rfl rfl (fun id' => Keyed.get?_insert _ id id' _)
          (Machine.deeds_append
            [.notice (.added id type), .built s.manager.built type factory] rfl)
          (fun _ => (ite_self _).symm) rfl htouch

theorem fits_withIdle {f : Entry K → K.Contents → Run K (Except EngineError Unit)}
    {g : Standing K → K.Contents → Upshot K EngineError}
    (hf : ∀ e c, s.manager.blocks.get? id = some e → e.contents = some c →
      (f e c).Abides .total ((g e.standing c).Fits id s) s) :
    (withIdle id f).Abides .total ((Upshot.ofIdle id g (s.standing? id)).Fits id s) s := by
  unfold withIdle
  rw [abides_bind, abides_manager]
  cases he : s.manager.blocks.get? id with
  | none =>
    have hnone := Machine.standing?_eq_none he
    rw [hnone, Upshot.ofIdle, ← hnone]
    exact fits_refuse _ _
  | some e =>
    have hsome := Machine.standing?_eq_some he
    cases hc : e.contents with
    | none =>
      have hbusy : Upshot.ofIdle id g (s.standing? id) =
          ⟨.error (.blockBusy id), [], s.standing? id⟩ := by
        rw [hsome, Upshot.ofIdle, Entry.standing, hc]
      rw [hbusy]
      simp only [hc]
      exact fits_refuse _ _
    | some c =>
      have hidle : Upshot.ofIdle id g (s.standing? id) = g e.standing c := by
        rw [hsome, Upshot.ofIdle, Entry.standing, hc]
      rw [hidle]
      simp only [hc]
      exact hf e c he hc

/-- A script that leaves the engine alone and knows its block alone leaves what the rule says. -/
theorem ends_runScript_of_leaves {S α : Type} {call : Call K} {leave : S → Run K Unit}
    {script : Script K.Factory K.Remark S α} (hcalm : script.IsCalm) {c c' : S}
    (hleaves : script.Leaves c c') :
    (runScript call n leave c script).Abides .total (fun r _ => r.2 = c') s := by
  induction script generalizing c s with
  | done a => exact hleaves
  | keep c next ih => exact ih hcalm hleaves
  | call r next ih =>
    unfold runScript
    rw [abides_bind]
    refine (Abides.onBreak (ends_perform hcalm.1) _).mono fun x t _ => ?_
    rw [abides_bind, abides_pause]
    exact ih x (hcalm.2 x) (hleaves x)

/-- If it is the script of a hook, it also spares the engine and touches the host. -/
theorem ends_hook {call : Call K} {leave : K.Contents → Run K Unit} {hook : Hook}
    {c c' : K.Contents} (hcalm : (K.hook c id hook).IsCalm)
    (hleaves : (K.hook c id hook).Leaves c c') :
    (runScript call n leave c (K.hook c id hook)).Abides .total
      (fun r t => s.Spares t ∧ r.2 = c' ∧ K.Touches s.host t.host) s := by
  obtain ⟨r, t, hrun, hspares⟩ := abides_total_iff.1 (ends_runScript hcalm c)
  obtain ⟨_, hr, hrule⟩ := (ends_runScript_of_leaves hcalm hleaves).of_run? hrun
  cases hr
  exact abides_total_iff.2 ⟨r, t, hrun, hspares, hrule, .hook hcalm hrun⟩

/-- The hook of an idle block is called, after something was noted about the block. -/
theorem fits_called (hs : s.Obeys rule id) {e : Entry K} {c : K.Contents}
    (he : s.manager.blocks.get? id = some e) (hc : e.contents = some c) (hook : Hook)
    (hhook : hook.IsLifecycle) {u : Machine K} (hmarked : u.manager = (s.marked id hook).manager)
    (hu : u.deeds = s.deeds) (hhost : u.host = s.host) :
    (do discard (callHook (n + 1) id hook); return .ok () : Run K _).Abides .total
      (((hook.mark e).standing.called rule id hook c).Fits id s) u := by
  obtain ⟨hcalm, hleaves⟩ := hs e c he hc hook hhook
  have hget : u.manager.blocks.get? id = some (hook.mark e) := by
    rw [hmarked]
    simp [Machine.marked, Keyed.get?_modify, he]
  have hc' : (hook.mark e).contents = some c := by rw [hook.contents_mark, hc]
  rw [abides_bind, abides_discard]
  refine (ends_enter (P := fun c' h => c' = rule c id hook ∧ K.Touches u.host h) hget hc'
    (ends_hook hcalm hleaves)).mono fun _ t ht => ?_
  obtain ⟨_, ⟨rfl, htouch⟩, hmanager, hdeeds⟩ := ht
  rw [hu] at hdeeds
  rw [hhost] at htouch
  refine Machine.fits_of_get? rfl
    (o := some { hook.mark e with contents := some (rule c id hook) }) rfl (fun id' => ?_) hdeeds
    (fun id' => ?_) ?_ htouch
  · rw [hmanager, hmarked]
    simp only [Machine.marked, Keyed.modify_modify, Keyed.get?_modify]
    split
    · next hid => rw [← hid, he, Option.map_some]
    · rfl
  · by_cases hid : id = id' <;> simp [Event.callOf?, Standing.called, hid]
  · rw [hmanager, hmarked, Machine.marked]

theorem fits_start (hs : s.Obeys rule id) :
    (start (callHook (n + 1)) id).Abides .total
      ((Order.start.upshot s.make? rule id (s.standing? id)).Fits id s) s := by
  refine fits_withIdle fun e c he hc => ?_
  dsimp only [Entry.standing]
  cases hst : e.state with
  | started =>
    have hsame : s.standing? id = some ⟨e.type, .started, e.bindings, e.contents⟩ := by
      rw [Machine.standing?_eq_some he, Entry.standing, hst]
    rw [← hsame]
    exact fits_notify _ _
  | stopped => exact fits_called hs he hc .start trivial rfl rfl rfl

theorem fits_stop (hs : s.Obeys rule id) :
    (stop (callHook (n + 1)) id).Abides .total
      ((Order.stop.upshot s.make? rule id (s.standing? id)).Fits id s) s := by
  refine fits_withIdle fun e c he hc => ?_
  dsimp only [Entry.standing]
  cases hst : e.state with
  | started => exact fits_called hs he hc .stop trivial rfl rfl rfl
  | stopped =>
    have hsame : s.standing? id = some ⟨e.type, .stopped, e.bindings, e.contents⟩ := by
      rw [Machine.standing?_eq_some he, Entry.standing, hst]
    rw [← hsame]
    exact fits_notify _ _

theorem fits_bind (hlax : s.manager.settings.strictBind = false) (hs : s.Obeys rule id)
    (port : Port) (dest : BlockId) :
    (bind (callHook (n + 1)) id port dest).Abides .total
      (((Order.bind port dest).upshot s.make? rule id (s.standing? id)).Fits id s) s := by
  have hmay : mayLeadTo s.manager dest := by simp [mayLeadTo, hlax]
  unfold bind
  rw [abides_bind, abides_manager, if_pos hmay]
  refine fits_withIdle fun e c he hc => ?_
  exact fits_called hs he hc (.bind port dest) trivial rfl rfl rfl

theorem fits_conf (hs : s.Obeys rule id) (entry : String) :
    (conf (callHook (n + 1)) id entry).Abides .total
      (((Order.conf entry).upshot s.make? rule id (s.standing? id)).Fits id s) s := by
  refine fits_withIdle fun e c he hc => ?_
  have hsame : s.marked id (.configure entry) = s := by
    simp [Machine.marked, Hook.mark_of_isPlain (show Hook.IsPlain (.configure entry) from trivial)]
  exact fits_called hs he hc (.configure entry) trivial (by rw [hsame]) rfl rfl

theorem fits_del :
    (del id).Abides .total ((Order.del.upshot s.make? rule id (s.standing? id)).Fits id s) s := by
  refine fits_withIdle fun e c he hc => ?_
  rw [← Machine.standing?_eq_some he]
  dsimp only [Entry.standing]
  cases e.state with
  | started => exact fits_refuse _ _
  | stopped =>
    dsimp only
    rw [abides_bind, abides_manager, Machine.make?]
    cases s.manager.factories.get? e.type with
    | none => exact fits_refuse _ _
    | some factory =>
      exact Machine.fits_of_get? rfl (o := none) rfl (fun id' => Keyed.get?_erase _ id id')
        (Machine.deeds_append
          [.released e.serial, .returned e.serial e.type factory, .notice (.deleted id)] rfl)
        (fun _ => (ite_self _).symm) rfl (.release c s.host)

theorem fits_obey (hlax : s.manager.settings.strictBind = false) (hs : s.Obeys rule id)
    (hid : ¬ id.isSink) (order : Order) :
    (obey (callHook (n + 1)) id order).Abides .total
      ((order.upshot s.make? rule id (s.standing? id)).Fits id s) s := by
  cases order with
  | add type => exact fits_add hid type
  | init =>
    unfold obey
    rw [Order.upshot, abides_bind, abides_manager, s.contains_eq id]
    split
    · exact fits_notify _ _
    · exact fits_refuse _ _
  | conf entry => exact fits_conf hs entry
  | bind port dest => exact fits_bind hlax hs port dest
  | start => exact fits_start hs
  | stop => exact fits_stop hs
  | del => exact fits_del

/-- **A command is confined to its block.** Without strict binding, where the hooks of its block
obey a rule, a command comes to an answer; the answer, the hooks that are called and what becomes of
the block are what the block, the factories and the rule say, and no other block changes. -/
theorem fits_exec (hlax : s.manager.settings.strictBind = false) (hs : s.Obeys rule id)
    (kind : CommandKind) (arg : Option String) :
    (exec (callHook (n + 1)) kind id arg).Abides .total
      ((upshot s.make? rule kind id arg (s.standing? id)).Fits id s) s := by
  unfold exec upshot
  rw [abides_bind, abides_notify]
  split
  · exact Machine.fits_answer _ rfl rfl (.nothing _)
  · next hid =>
    cases Order.ofArgument kind arg with
    | error fault =>
      cases fault with
      | missing => exact Machine.fits_answer _ rfl rfl (.nothing _)
      | notABinding => exact Machine.fits_answer _ rfl rfl (.nothing _)
    | ok order =>
      dsimp only
      rw [abides_bind]
      refine (fits_obey (s := { s with
        events := .notice (.commandGiven id kind (arg.getD "")) :: s.events }) hlax hs hid
        order).mono fun a t ht => ?_
      have hconfined := ht.confined
      exact ⟨congrArg _ ht.answer, ht.calls, ht.block, hconfined.blocks, hconfined.calls,
        hconfined.manager, hconfined.host⟩

end Run

end BlockFlow
