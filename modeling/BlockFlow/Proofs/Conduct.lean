import BlockFlow.Proofs.Moments
import BlockFlow.Proofs.Operations

/-!
# The engine goes by steps

Every run of the engine is made of the steps of a machine, whatever its hooks ask for. At each
moment the machine is some steps away from where the run began, and at the end it is inside of the
same hooks as then.

1. `Run.Conducts`: a run goes by steps; it keeps this when it is put together from such runs.
2. Operations on blocks, timers and descriptors go by steps if the calls of hooks do;
   `conducts_perform`: hence so does all that is done for a request.
3. `goes_runScript`, `goes_enter`: so does a script, and a hook with its end;
   `conducts_callHook`: hence every call of a hook.
4. `conducts_play`, `conducts_dispose`: so does all that is asked from outside of every hook.
-/

namespace BlockFlow

variable {K : Kit} {α β : Type}

/-- A run goes by steps that lead on from a machine. If it breaks off, then inside of the hooks of
`stack`. -/
@[reducible]
def Terms.steps (s : Machine K) (stack : List Frame) : Terms K :=
  .along (Steps s) fun u => Steps s u ∧ u.stack = stack

namespace Run

theorem Abides.afterSteps {r : Run K α} {s t u : Machine K} {stack : List Frame}
    {Q R : α → Machine K → Prop} (h : r.Abides (.steps t stack) Q u) (hst : Steps s t)
    (hQ : ∀ a v, Q a v → R a v) : r.Abides (.steps s stack) R u :=
  h.monoAlong (fun _ => hst.trans) (fun _ => And.imp_left hst.trans) hQ

/-- A run that begins with a machine, taken as some steps away from another one, goes on by
steps. -/
def Goes (r : Run K α) (s t : Machine K) : Prop :=
  r.Abides (.steps s t.stack) (fun _ u => Steps s u ∧ u.stack = t.stack) t

/-- A run goes by steps, and ends inside of the hooks in which it began. -/
def Conducts (r : Run K α) : Prop := ∀ s, r.Goes s s

theorem Goes.after {r : Run K α} {s t : Machine K} (h : r.Goes t t) (hst : Steps s t) :
    r.Goes s t :=
  Abides.afterSteps h hst fun _ _ => And.imp_left hst.trans

/-- The hooks in which a run is to end may be given by another machine. -/
theorem Goes.of_stack_eq {r : Run K α} {s t u : Machine K} (h : r.Goes s t)
    (hstack : t.stack = u.stack) :
    r.Abides (.steps s u.stack) (fun _ v => Steps s v ∧ v.stack = u.stack) t := by
  unfold Goes at h
  rwa [hstack] at h

theorem Conducts.goes {r : Run K α} (h : r.Conducts) {s t : Machine K} (hst : Steps s t) :
    r.Goes s t := (h t).after hst

/-! ## Runs put together -/

theorem Goes.bind {r : Run K α} {f : α → Run K β} {s t : Machine K} (hr : r.Goes s t)
    (hf : ∀ a, (f a).Conducts) : (r >>= f).Goes s t := by
  unfold Goes
  rw [abides_bind]
  exact Abides.mono hr fun a u hu => ((hf a).goes hu.1).of_stack_eq hu.2

theorem Conducts.bind {r : Run K α} {f : α → Run K β} (hr : r.Conducts)
    (hf : ∀ a, (f a).Conducts) : (r >>= f).Conducts := fun s => (hr s).bind hf

theorem conducts_pure (a : α) : (pure a : Run K α).Conducts := fun _ => ⟨.refl, rfl⟩

theorem conducts_outOfFuel : (outOfFuel : Run K α).Conducts := fun _ => trivial

theorem conducts_throw (b : Breakdown) : (throw b : Run K α).Conducts := fun _ => ⟨.refl, rfl⟩

theorem conducts_manager : (manager : Run K _).Conducts := fun _ => ⟨.refl, rfl⟩

theorem conducts_host : (host : Run K _).Conducts := fun _ => ⟨.refl, rfl⟩

theorem Conducts.discard {r : Run K α} (h : r.Conducts) : (discard r).Conducts := by
  show (_ <$> r).Conducts
  rw [map_eq_pure_bind]
  exact h.bind fun _ => conducts_pure _

theorem Conducts.onBreak {r : Run K α} {last : Run K Unit} (hr : r.Conducts)
    (hlast : last.Conducts) : (r.onBreak last).Conducts := by
  intro s
  exact Abides.onBreakThen (hr s) fun _ t ht => (hlast.goes ht.1).of_stack_eq ht.2

/-! ## Single steps -/

theorem conducts_notify (n : Notice) : (notify n : Run K _).Conducts :=
  fun s => ⟨.single (.notice s n), rfl⟩

theorem conducts_remark (m : K.Remark) : (record (.remark m) : Run K _).Conducts :=
  fun s => ⟨.single (.remark s m), rfl⟩

theorem conducts_refuse {ε : Type} (n : Notice) (e : ε) :
    (refuse n e : Run K (Except ε α)).Conducts :=
  (conducts_notify n).bind fun _ => conducts_pure _

theorem conducts_onHost (f : Host → α × Host) : (onHost f : Run K α).Conducts :=
  fun s => ⟨.single (.host s _), rfl⟩

theorem conducts_modifyManager {f : Manager K → Manager K}
    (h : ∀ m : Manager K, m.SameBlocks (f m)) :
    (modifyManager f).Conducts :=
  fun s => ⟨.single (.aside (h s.manager)), rfl⟩

theorem conducts_commit {e : Event K} {f : Manager K → Manager K}
    (he : ∀ s : Machine K, Step s { s with events := e :: s.events })
    (hstack : ∀ es, openHooks (e :: es) = openHooks es)
    (hf : ∀ m : Manager K, m.SameBlocks (f m)) : (commit e f).Conducts := by
  intro s
  have haside : Steps s { s with manager := f s.manager } := .single (.aside (hf s.manager))
  exact ⟨haside.tail (he _), hstack _⟩

/-! ## Calls -/

end Run

/-- Calls of hooks go by steps. For a hook about which the engine has noted something, the machine
before the note counts. -/
structure Call.Conducts (call : Call K) : Prop where
  plain {id : BlockId} {hook : Hook} (h : hook.IsPlain) : (call id hook).Conducts
  marked {s : Machine K} {id : BlockId} {e : Entry K} {hook : Hook}
    (he : s.manager.blocks.get? id = some e) (hc : e.contents ≠ none)
    (hadm : e.Admits s.manager hook) : (call id hook).Goes s (s.marked id hook)

namespace Run

/-! ## Blocks -/

theorem conducts_add (id : BlockId) (type : String) : (add id type : Run K _).Conducts := by
  intro s
  unfold Goes add
  simp only [abides_bind, abides_manager]
  split
  · exact conducts_refuse _ _ s
  split
  · exact conducts_refuse _ _ s
  next hid hnew =>
  split
  · exact conducts_refuse _ _ s
  next factory hfac =>
  simp only [abides_bind, abides_onHost]
  have hhost : Steps s { s with host := (K.build factory s.host).2 } := .single (.host s _)
  cases (K.build factory s.host).1 with
  | none => exact (conducts_refuse _ _).goes hhost
  | some c =>
    have hid' : id.isSink = false := by simpa using hid
    have hnew' : s.manager.blocks.get? id = none := by simpa [Keyed.contains] using hnew
    exact ⟨(hhost.tail (.build c hid' hnew' hfac)).tail (.notice _ (.added id type)), rfl⟩

theorem goes_withIdle {id : BlockId} {f : Entry K → K.Contents → Run K (Except EngineError α)}
    {s : Machine K} (h : ∀ e c, s.manager.blocks.get? id = some e → e.contents = some c →
      (f e c).Goes s s) : (withIdle id f).Goes s s := by
  unfold Goes withIdle
  simp only [abides_bind, abides_manager]
  split
  · exact conducts_refuse _ _ s
  next e he =>
  split
  · exact conducts_refuse _ _ s
  next c hc => exact h e c he hc

theorem Goes.discard {r : Run K α} {s t : Machine K} (h : r.Goes s t) : (discard r).Goes s t := by
  show (_ <$> r).Goes s t
  rw [map_eq_pure_bind]
  exact h.bind fun _ => conducts_pure _

variable {call : Call K}

/-- Something is noted about an idle block and told, then its hook is called. -/
theorem goes_mark (hcall : Call.Conducts call) (hook : Hook) {s : Machine K} {id : BlockId}
    {e : Entry K} {c : K.Contents} (he : s.manager.blocks.get? id = some e)
    (hc : e.contents = some c) (hadm : e.Admits s.manager hook) (n : Notice) (a : α) :
    (do
      modifyEntry id hook.mark
      notify n
      discard (call id hook)
      return a : Run K α).Goes s s := by
  have hne : e.contents ≠ none := by rw [hc]; exact Option.some_ne_none c
  -- The hook is called from the machine after the note; the step that begins the hook makes both.
  let t : Machine K := { s with events := .notice n :: s.events }
  have ht : Steps s t := .single (.notice s n)
  have hgo : (do discard (call id hook); return a : Run K α).Goes t (t.marked id hook) :=
    (Goes.discard (hcall.marked (s := t) he hne hadm)).bind fun _ => conducts_pure _
  unfold Goes
  simp only [abides_bind, abides_modifyEntry, abides_notify]
  rw [← abides_bind]
  exact Abides.afterSteps hgo ht fun _ _ => And.imp_left ht.trans

theorem conducts_start (hcall : Call.Conducts call) (id : BlockId) : (start call id).Conducts := by
  refine fun s => goes_withIdle fun e c he hc => ?_
  dsimp only
  cases hst : e.state with
  | started => exact ((conducts_notify _).bind fun _ => conducts_pure _) s
  | stopped => exact goes_mark hcall .start he hc hst (.started id) _

theorem conducts_stop (hcall : Call.Conducts call) (id : BlockId) : (stop call id).Conducts := by
  refine fun s => goes_withIdle fun e c he hc => ?_
  dsimp only
  cases hst : e.state with
  | stopped => exact ((conducts_notify _).bind fun _ => conducts_pure _) s
  | started => exact goes_mark hcall .stop he hc hst (.stopped id) _

theorem conducts_bind (hcall : Call.Conducts call) (id : BlockId) (port : Port) (dest : BlockId) :
    (bind call id port dest).Conducts := by
  intro s
  unfold Goes bind
  simp only [abides_bind, abides_manager]
  split
  · next hdest =>
    exact goes_withIdle fun e c he hc =>
      goes_mark hcall (.bind port dest) he hc hdest (.bound id port dest) _
  · exact conducts_refuse _ _ s

theorem conducts_conf (hcall : Call.Conducts call) (id : BlockId) (entry : String) :
    (conf call id entry).Conducts := by
  refine fun s => goes_withIdle fun e c he hc => ?_
  have hplain : (call id (.configure entry)).Conducts := hcall.plain trivial
  exact ((conducts_notify _).bind fun _ => hplain.discard.bind fun _ => conducts_pure _) s

theorem conducts_del (id : BlockId) : (del id : Run K _).Conducts := by
  refine fun s => goes_withIdle fun e c he hc => ?_
  cases hst : e.state with
  | started => exact conducts_refuse _ _ s
  | stopped =>
    unfold Goes
    simp only [abides_bind, abides_manager]
    split
    · exact conducts_refuse _ _ s
    next factory hfac =>
    have hnote : Steps s { s with events := .notice (.deleted id) :: s.events } :=
      .single (.notice s _)
    exact ⟨hnote.tail (.delete he hc hst hfac), rfl⟩

theorem conducts_force (id : BlockId) : (force id : Run K _).Conducts := by
  intro s
  have hnote : Steps s { s with events := .notice (.forced id) :: s.events } :=
    .single (.notice s _)
  unfold Goes force
  simp only [abides_bind, abides_notify, abides_manager, abides_erase]
  cases he : s.manager.blocks.get? id with
  | none =>
    -- A hook that ran meanwhile may have dropped the block before.
    have hsame : s.manager.blocks.erase id = s.manager.blocks := Keyed.erase_of_get?_eq_none he
    exact ⟨hnote.tail (.aside ⟨rfl, hsame, rfl⟩), rfl⟩
  | some e =>
    cases hc : e.contents with
    | none =>
      simp only [hc, abides_pure]
      exact ⟨hnote.tail (.dropBusy (e := e) he hc), rfl⟩
    | some c =>
      simp only [hc, abides_release]
      exact ⟨hnote.tail (.dropIdle (e := e) he hc), rfl⟩

theorem conducts_clear (hcall : Call.Conducts call) (n : Nat) : (clear call n).Conducts := by
  induction n with
  | zero => exact conducts_outOfFuel
  | succ n ih =>
    refine conducts_manager.bind fun m => ?_
    cases m.blocks.leastKey? with
    | none => exact conducts_pure _
    | some id =>
      refine (conducts_stop hcall id).discard.bind fun _ => (conducts_del id).bind fun x => ?_
      cases x with
      | ok _ => exact ih
      | error _ => exact (conducts_force id).bind fun _ => ih

/-! ## Timers and descriptors -/

theorem conducts_arm (owner : BlockId) (tid : TimerId) (delay : Duration) (arg : Payload) :
    (arm owner tid delay arg : Run K _).Conducts := by
  refine conducts_manager.bind fun m => ?_
  split
  · refine (conducts_onHost _).bind fun now => ?_
    cases now.later? delay with
    | none => exact conducts_refuse _ _
    | some expiration =>
      refine (conducts_notify _).bind fun _ => Conducts.bind ?_ fun _ => conducts_pure _
      exact conducts_commit (fun s => .armed s _) (fun _ => rfl) fun _ => ⟨rfl, rfl, rfl⟩
  · exact conducts_refuse _ _

theorem conducts_disarm (owner : BlockId) (tid : TimerId) :
    (disarm owner tid : Run K _).Conducts := by
  refine conducts_manager.bind fun m => ?_
  have hlast : (modifyManager fun m' : Manager K =>
      { m' with timers := (m.timers.remove owner tid).2 }).Conducts :=
    conducts_modifyManager fun _ => ⟨rfl, rfl, rfl⟩
  show Conducts (if (m.timers.remove owner tid).1 then _ else _)
  split
  · exact (conducts_notify _).bind fun _ => hlast
  · exact hlast

theorem conducts_disarmAll : (disarmAll : Run K _).Conducts :=
  conducts_modifyManager fun _ => ⟨rfl, rfl, rfl⟩

theorem conducts_popThen {now : Instant} {r : Run K α} {f : Timer → Run K α} (hr : r.Conducts)
    (hf : ∀ t, (f t).Conducts) : (popThen now r f).Conducts := by
  refine conducts_manager.bind fun m => ?_
  dsimp only
  cases (m.timers.popExpired now).1 with
  | none => exact hr
  | some t =>
    refine Conducts.bind ?_ fun _ => hf t
    exact conducts_modifyManager fun _ => ⟨rfl, rfl, rfl⟩

theorem conducts_watch (w : Watch) : (watch w : Run K _).Conducts := by
  refine conducts_manager.bind fun m => ?_
  split
  · split
    · exact conducts_refuse _ _
    · refine Conducts.bind ?_ fun _ => (conducts_notify _).bind fun _ => conducts_pure _
      exact conducts_commit (fun s => .enlisted s _) (fun _ => rfl) fun _ => ⟨rfl, rfl, rfl⟩
  · exact conducts_refuse _ _

theorem conducts_unwatch (w : Watch) : (unwatch w : Run K _).Conducts :=
  (conducts_notify _).bind fun _ => conducts_modifyManager fun _ => ⟨rfl, rfl, rfl⟩

/-! ## Requests and scripts -/

theorem conducts_act (a : Host.Action) (n : Nat) :
    (perform call n (.act a) : Run K _).Conducts := by
  refine (conducts_onHost (·.act a)).bind fun outcome => ?_
  cases outcome with
  | noInstant => exact conducts_throw _
  | _ => exact conducts_pure _

theorem conducts_direct (hcall : Call.Conducts call) (n : Nat) {r : Request K.Factory K.Remark}
    (hr : r.IsDirect) : (perform call n r).Conducts := by
  cases r with
  | clear => exact conducts_clear hcall n
  | watch w => exact conducts_watch w
  | unwatch w => exact conducts_unwatch w
  | act a => exact conducts_act a n
  | listen path => exact conducts_onHost (·.listen path)
  | accept fd => exact conducts_onHost (·.accept fd)
  | receive fd => exact conducts_onHost (·.receive fd)
  | transmit fd bytes => exact conducts_onHost (·.transmit fd bytes)
  | close fd => exact conducts_onHost fun h => ((), h.close fd)
  | removeFile path => exact conducts_onHost (·.removeFile path)
  | _ => exact hr.elim

theorem Operates.conducts {r : Run K α} (h : Operates call Request.IsDirect r)
    (hcall : Call.Conducts call) : r.Conducts := by
  induction h with
  | pure a => exact conducts_pure a
  | outOfFuel => exact conducts_outOfFuel
  | bind _ _ hr hf => exact hr.bind hf
  | manager => exact conducts_manager
  | host => exact conducts_host
  | notify n => exact conducts_notify n
  | remark m => exact conducts_remark m
  | readClock => exact conducts_onHost _
  | wait => exact conducts_onHost _
  | aside hf => exact conducts_modifyManager fun m => (hf m).toSameBlocks
  | arm owner tid delay arg => exact conducts_arm owner tid delay arg
  | disarm owner tid => exact conducts_disarm owner tid
  | disarmAll => exact conducts_disarmAll
  | popThen _ _ hr hf => exact conducts_popThen hr hf
  | add id type => exact conducts_add id type
  | start id => exact conducts_start hcall id
  | stop id => exact conducts_stop hcall id
  | connect id port dest => exact conducts_bind hcall id port dest
  | conf id entry => exact conducts_conf hcall id entry
  | del id => exact conducts_del id
  | plain id hook => exact hcall.plain hook
  | direct n hr => exact conducts_direct hcall n hr

theorem conducts_perform (hcall : Call.Conducts call) (n : Nat)
    (r : Request K.Factory K.Remark) : (perform call n r).Conducts :=
  (operates_perform n r id).conducts hcall

/-- A script that begins inside of some hooks goes by steps and ends inside of them. If it breaks
off, `leave` tells which hooks it is inside of then. -/
theorem goes_runScript {S : Type} (hcall : Call.Conducts call) (n : Nat) {leave : S → Run K Unit}
    {before after : List Frame}
    (hleave : ∀ c t, t.stack = before →
      (leave c).Abides (.steps t after) (fun _ u => Steps t u ∧ u.stack = after) t)
    (script : Script K.Factory K.Remark S α) (c : S) {s t : Machine K} (hst : Steps s t)
    (ht : t.stack = before) :
    (runScript call n leave c script).Abides (.steps s after)
      (fun _ u => Steps s u ∧ u.stack = before) t := by
  induction script generalizing c t with
  | done a => exact ⟨hst, ht⟩
  | keep c' next ih => exact ih c' hst ht
  | call r next ih =>
    unfold runScript
    rw [abides_bind]
    have hr := (conducts_perform hcall n r).goes hst
    refine Abides.mono (Abides.onBreakThen hr fun _ u hu => ?_) fun a u hu => ?_
    · exact (hleave c u (hu.2.trans ht)).afterSteps hu.1 fun _ _ => And.imp_left hu.1.trans
    · rw [abides_bind, abides_pause]
      exact ⟨hu.1, ih a c hu.1 (hu.2.trans ht)⟩

/-! ## Hooks -/

/-- The innermost hook ends. -/
theorem goes_leave {f : Frame} {fs : List Frame} {s : Machine K} (hs : s.stack = f :: fs)
    (c : K.Contents) :
    (leave f.id f.serial c).Abides (.steps s fs) (fun _ t => Steps s t ∧ t.stack = fs) s := by
  have htail : (openHooks s.events).tail = fs := by
    show s.stack.tail = fs
    rw [hs, List.tail_cons]
  unfold leave giveBack
  simp only [abides_bind, abides_record, abides_manager]
  split
  · next e he =>
    split
    · next hserial => exact ⟨.single (.regain c hs he hserial), htail⟩
    · next hserial =>
      refine ⟨.single (.part c hs fun e' he' => ?_), htail⟩
      rw [he] at he'
      cases he'
      exact hserial
  · next hnone =>
    refine ⟨.single (.part c hs fun e' he' => ?_), htail⟩
    rw [hnone] at he'
    cases he'

/-- A hook of an idle block begins, runs and ends. -/
theorem goes_enter_idle (hcall : Call.Conducts call) (n : Nat) {s : Machine K} {id : BlockId}
    {e : Entry K} (hook : Hook) (he : s.manager.blocks.get? id = some e) (hc : e.contents ≠ none) :
    (enter call n id hook).Abides (.steps (s.entered e.serial id hook) s.stack)
      (fun a t => a ≠ none ∧ Steps (s.entered e.serial id hook) t ∧ t.stack = s.stack) s := by
  obtain ⟨c, hc'⟩ := Option.ne_none_iff_exists'.1 hc
  have hscript := goes_runScript hcall n 
    (fun c _ ht => goes_leave (f := ⟨e.serial, id⟩) ht c) (K.hook c id hook) c
    (.refl : Steps (s.entered e.serial id hook) _) rfl
  unfold enter
  simp only [abides_bind, abides_manager, he, hc', abides_modifyEntry, abides_record,
    abides_pause]
  refine ⟨.refl, hscript.mono fun r t ht => ?_⟩
  refine (goes_leave ht.2 r.2).afterSteps ht.1 fun _ u hu => ?_
  exact ⟨Option.some_ne_none _, ht.1.trans hu.1, hu.2⟩

theorem goes_enter (hcall : Call.Conducts call) (n : Nat) {s : Machine K} {id : BlockId}
    {e : Entry K} {hook : Hook} (he : s.manager.blocks.get? id = some e) (hc : e.contents ≠ none)
    (hadm : e.Admits s.manager hook) : (enter call n id hook).Goes s (s.marked id hook) := by
  have hget : (s.marked id hook).manager.blocks.get? id = some (hook.mark e) := by
    simp [Machine.marked, Keyed.get?_modify, he]
  have hne : (hook.mark e).contents ≠ none := by rwa [Hook.contents_mark]
  have hbegin : Steps s ((s.marked id hook).entered (hook.mark e).serial id hook) := by
    rw [Hook.serial_mark]
    exact .single (.enter he hc hadm)
  exact (goes_enter_idle hcall n hook hget hne).monoAlong (fun _ => hbegin.trans)
    (fun _ => And.imp_left hbegin.trans) fun _ _ ht => ⟨hbegin.trans ht.2.1, ht.2.2⟩

theorem conducts_enter (hcall : Call.Conducts call) (n : Nat) : Call.Conducts (enter call n) where
  marked := goes_enter hcall n
  plain {id hook} hplain s := by
    cases he : s.manager.blocks.get? id with
    | none =>
      unfold Goes enter
      simp only [abides_bind, abides_manager, he, abides_pure]
      exact ⟨.refl, trivial⟩
    | some e =>
      by_cases hc : e.contents = none
      · unfold Goes enter
        simp only [abides_bind, abides_manager, he, hc, abides_notify, abides_pure]
        exact ⟨.single (.notice s _), rfl⟩
      · have hsame : s.marked id hook = s := by
          simp [Machine.marked, Hook.mark_of_isPlain hplain]
        rw [← hsame]
        have hgo := goes_enter hcall n he hc (Entry.admits_of_isPlain hplain)
        rw [hsame] at hgo ⊢
        exact hgo

/-- Every call of a hook goes by steps, however deep the calls are. -/
theorem conducts_callHook (n : Nat) : Call.Conducts (callHook n : Call K) := by
  induction n with
  | zero => exact ⟨fun _ => conducts_outOfFuel, fun _ _ _ => trivial⟩
  | succ n ih => exact conducts_enter ih n

/-! ## From outside -/

theorem conducts_play (n : Nat) (script : Script K.Factory K.Remark Unit α) :
    (play n script).Conducts := by
  refine Conducts.bind (fun s => ?_) fun _ => conducts_pure _
  have hleave : ∀ (_ : Unit) (t : Machine K), t.stack = s.stack →
      (pure () : Run K Unit).Abides (.steps t s.stack) (fun _ u => Steps t u ∧ u.stack = s.stack)
        t := fun _ t ht => ⟨.refl, ht⟩
  exact goes_runScript (conducts_callHook n) n hleave script () .refl rfl

/-- Blocks that are live are released one after the other. -/
theorem goes_abandonAll {bs : List (BlockId × Entry K)} {s : Machine K}
    (hbs : bs.Pairwise fun p q => p.1 < q.1)
    (hlive : ∀ p ∈ bs, s.manager.blocks.get? p.1 = some p.2) : (abandonAll bs).Goes s s := by
  induction bs generalizing s with
  | nil => exact conducts_pure _ s
  | cons p bs ih =>
    obtain ⟨id, e⟩ := p
    obtain ⟨hfirst, hbs⟩ := List.pairwise_cons.1 hbs
    have he : s.manager.blocks.get? id = some e := hlive _ (.head _)
    have hrest : ∀ p ∈ bs, (s.without id).manager.blocks.get? p.1 = some p.2 := by
      intro p hp
      have hne : id ≠ p.1 := fun h => KeyOrder.irrefl id (h ▸ hfirst p hp)
      simp only [Machine.without, Keyed.get?_erase, if_neg hne]
      exact hlive p (.tail _ hp)
    unfold abandonAll abandon Goes
    simp only [abides_bind, abides_erase]
    cases hc : e.contents with
    | none => exact (ih hbs hrest).after (.single (.dropBusy he hc))
    | some c =>
      simp only [abides_release]
      exact (ih (s := (s.without id).released e.serial c) hbs hrest).after
        (.single (.dropIdle he hc))

theorem conducts_dispose (n : Nat) : (dispose n : Run K Unit).Conducts := by
  have hlast : (do abandonAll (← manager).blocks.toList : Run K Unit).Conducts := by
    intro s
    exact goes_abandonAll s.manager.blocks.ascending fun p hp => Keyed.get?_eq_some_iff.2 hp
  refine conducts_disarmAll.bind fun _ => ?_
  refine ((conducts_clear (conducts_callHook n) n).onBreak hlast).bind fun _ => ?_
  exact conducts_modifyManager fun _ => ⟨rfl, rfl, rfl⟩

end Run

end BlockFlow
