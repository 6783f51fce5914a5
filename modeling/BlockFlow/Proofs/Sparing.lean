import BlockFlow.Proofs.Operations
import BlockFlow.Proofs.Pairing

/-!
# Busy blocks are left alone

While a block is inside of one of its hooks, every operation on it is refused. Only the end of all
blocks at once would drop it, so as long as no hook asks for that, whatever else hooks ask for and
however deep inside of each other, its entry stays as it is until its own hook ends.

1. `Script.Keeps`: scripts that do not ask for the end of all blocks, and what they keep.
2. `Run.Spares`: a run all along which an entry stays as it is; a rule for each thing that a run is
   made of, `Operates.spares`.
3. `spares_callHook`: the calls of all hooks; `abides_callHook_of_keeps`: a hook of the block itself.
-/

namespace BlockFlow

variable {K : Kit} {α β : Type}

/-! ## Scripts -/

/-- The request for the end of all blocks. -/
def Request.IsClear {F M : Type} : Request F M → Prop
  | .clear => True
  | _ => False

/-- A script does not ask for the end of all blocks, `P` holds of all that it says that its block is
to be left as, and `Q` of its result. -/
def Script.Keeps {F M S α : Type} (P : S → Prop) (Q : α → Prop) : Script F M S α → Prop
  | .done a => Q a
  | .keep s next => P s ∧ next.Keeps P Q
  | .call r next => ¬ r.IsClear ∧ ∀ x, (next x).Keeps P Q

section Scripts

variable {F M S T : Type} {P : S → Prop} {Q : α → Prop} {R : β → Prop}

theorem Script.Keeps.bind {script : Script F M S α} {f : α → Script F M S β}
    (h : script.Keeps P Q) (hf : ∀ a, Q a → (f a).Keeps P R) : (script >>= f).Keeps P R := by
  show (script.andThen f).Keeps P R
  induction script with
  | done a => exact hf a h
  | keep _ _ ih => exact ⟨h.1, ih h.2⟩
  | call r next ih => exact ⟨h.1, fun x => ih x (h.2 x)⟩

theorem Script.Keeps.mapState {f : T → S} {script : Script F M T α}
    (h : script.Keeps (fun t => P (f t)) Q) : (script.mapState f).Keeps P Q := by
  induction script with
  | done a => exact h
  | keep _ _ ih => exact ⟨h.1, ih h.2⟩
  | call r next ih => exact ⟨h.1, fun x => ih x (h.2 x)⟩

theorem Script.Keeps.mono {P' : S → Prop} {Q' : α → Prop} {script : Script F M S α}
    (h : script.Keeps P Q) (hP : ∀ s, P s → P' s) (hQ : ∀ a, Q a → Q' a) :
    script.Keeps P' Q' := by
  induction script with
  | done a => exact hQ a h
  | keep s next ih => exact ⟨hP s h.1, ih h.2⟩
  | call r next ih => exact ⟨h.1, fun x => ih x (h.2 x)⟩

theorem Script.IsLocal.keeps {script : Script F M S α} (h : script.IsLocal) :
    script.Keeps (fun _ => True) fun _ => True := by
  induction script with
  | done => trivial
  | keep _ _ ih => exact ⟨trivial, ih h⟩
  | call r next ih =>
    refine ⟨?_, fun x => ih x (h.2 x)⟩
    cases r with
    | clear => exact h.1.elim
    | _ => exact not_false

end Scripts

/-- No hook asks for the end of all blocks. -/
def Kit.NeverClears (K : Kit) : Prop :=
  ∀ (c : K.Contents) (id : BlockId) (hook : Hook),
    (K.hook c id hook).Keeps (fun _ => True) fun _ => True

/-! ## Runs that leave an entry alone -/

/-- At each moment of a run a block has the given entry, and `B` holds if the run breaks off. -/
@[reducible]
def Terms.sparing (id : BlockId) (e : Entry K) (B : Machine K → Prop) : Terms K :=
  .along (·.manager.blocks.get? id = some e) B

namespace Run

/-- All along a run that begins with an entry of a block, the entry stays as it is. -/
def Spares (id : BlockId) (e : Entry K) (r : Run K α) : Prop :=
  ∀ s : Machine K, s.manager.blocks.get? id = some e →
    r.Abides (.sparing id e (·.manager.blocks.get? id = some e))
      (fun _ t => t.manager.blocks.get? id = some e) s

variable {id id' : BlockId} {e : Entry K}

theorem Spares.bind {r : Run K α} {f : α → Run K β} (hr : r.Spares id e)
    (hf : ∀ a, (f a).Spares id e) : (r >>= f).Spares id e := by
  intro s hs
  rw [abides_bind]
  exact (hr s hs).mono hf

theorem Spares.onBreak {r : Run K α} {last : Run K Unit} (hr : r.Spares id e)
    (hlast : last.Spares id e) : (r.onBreak last).Spares id e := by
  intro s hs
  exact Abides.onBreakThen (hr s hs) fun _ t ht => hlast t ht

theorem spares_pure (a : α) : (pure a : Run K α).Spares id e := fun _ hs => hs

theorem spares_manager : (manager : Run K (Manager K)).Spares id e := fun _ hs => hs

theorem spares_pause : (pause : Run K Unit).Spares id e := fun _ hs => ⟨hs, hs⟩

theorem spares_record (ev : Event K) : (record ev).Spares id e := fun _ hs => hs

theorem spares_onHost (f : Host → α × Host) : (onHost f : Run K α).Spares id e := fun _ hs => hs

theorem Spares.discard {r : Run K α} (h : r.Spares id e) : (discard r).Spares id e := by
  show (_ <$> r).Spares id e
  rw [map_eq_pure_bind]
  exact h.bind fun _ => spares_pure _

theorem spares_notify (note : Notice) : (notify note : Run K Unit).Spares id e :=
  spares_record (.notice note)

theorem spares_refuse {ε : Type} (note : Notice) (err : ε) :
    (refuse note err : Run K (Except ε α)).Spares id e :=
  (spares_notify note).bind fun _ => spares_pure _

theorem spares_modifyManager {f : Manager K → Manager K} (hf : ∀ m, (f m).blocks = m.blocks) :
    (modifyManager f).Spares id e := by
  intro s hs
  show (f s.manager).blocks.get? id = some e
  rw [hf, hs]

theorem spares_commit (ev : Event K) {f : Manager K → Manager K}
    (hf : ∀ m, (f m).blocks = m.blocks) : (commit ev f).Spares id e := by
  intro s hs
  show (f s.manager).blocks.get? id = some e
  rw [hf, hs]

theorem spares_modifyEntry (hid : id' ≠ id) (f : Entry K → Entry K) :
    (modifyEntry id' f).Spares id e := by
  intro s hs
  show (s.manager.blocks.modify id' f).get? id = some e
  rw [Keyed.get?_modify, if_neg hid, hs]

theorem spares_erase (hid : id' ≠ id) : (erase id' : Run K Unit).Spares id e := by
  intro s hs
  show (s.manager.blocks.erase id').get? id = some e
  rw [Keyed.get?_erase, if_neg hid, hs]

theorem spares_release (serial : Nat) (c : K.Contents) : (release serial c).Spares id e :=
  fun _ hs => hs

theorem spares_leave (hid : id' ≠ id) (serial : Nat) (c : K.Contents) :
    (leave id' serial c).Spares id e := by
  refine (spares_record _).bind fun _ => spares_manager.bind fun m => ?_
  split
  · split
    · exact spares_modifyEntry hid _
    · exact spares_release _ _
  · exact spares_release _ _

theorem spares_arm (owner : BlockId) (tid : TimerId) (delay : Duration) (arg : Payload) :
    (arm owner tid delay arg : Run K _).Spares id e := by
  refine spares_manager.bind fun m => ?_
  split
  · refine (spares_onHost _).bind fun now => ?_
    cases now.later? delay with
    | none => exact spares_refuse _ _
    | some expiration =>
      refine (spares_notify _).bind fun _ => Spares.bind ?_ fun _ => spares_pure _
      exact spares_commit _ fun _ => rfl
  · exact spares_refuse _ _

theorem spares_disarm (owner : BlockId) (tid : TimerId) :
    (disarm owner tid : Run K Unit).Spares id e := by
  refine spares_manager.bind fun m => ?_
  dsimp only [TimerList.remove]
  split
  · exact (spares_notify _).bind fun _ => spares_modifyManager fun _ => rfl
  · exact spares_modifyManager fun _ => rfl

theorem spares_popThen {now : Instant} {r : Run K α} {f : Timer → Run K α} (hr : r.Spares id e)
    (hf : ∀ x, (f x).Spares id e) : (popThen now r f).Spares id e := by
  unfold popThen
  refine spares_manager.bind fun m => ?_
  cases m.timers.popExpired now with
  | mk timer rest =>
    cases timer with
    | none => exact hr
    | some x =>
      refine Spares.bind ?_ fun _ => hf x
      exact spares_modifyManager fun _ => rfl

theorem spares_add (id' : BlockId) (type : String) :
    (add id' type : Run K _).Spares id e := by
  intro s hs
  unfold add
  rw [abides_bind, abides_manager]
  split
  · exact spares_refuse _ _ s hs
  split
  · exact spares_refuse _ _ s hs
  next hnew =>
  have hid : id' ≠ id := by
    rintro rfl
    rw [Keyed.contains, hs] at hnew
    exact hnew rfl
  split
  · exact spares_refuse _ _ s hs
  simp only [abides_bind, abides_onHost]
  split
  · exact spares_refuse _ _ _ hs
  simp only [abides_bind, abides_record, abides_notify, abides_modifyManager, abides_pure]
  rw [Keyed.get?_insert, if_neg hid, hs]

/-- A request that is done in one go is for all blocks only if it clears them. -/
theorem spares_direct {call : Call K} (m : Nat) {r : Request K.Factory K.Remark} (hr : r.IsDirect)
    (hclear : ¬ r.IsClear) : (perform call m r).Spares id e := by
  cases r with
  | clear => exact absurd trivial hclear
  | watch w =>
    refine spares_manager.bind fun m => ?_
    split
    · split
      · exact spares_refuse _ _
      · refine Spares.bind ?_ fun _ => (spares_notify _).bind fun _ => spares_pure _
        exact spares_commit _ fun _ => rfl
    · exact spares_refuse _ _
  | unwatch w => exact (spares_notify _).bind fun _ => spares_modifyManager fun _ => rfl
  | act a =>
    refine (spares_onHost _).bind fun outcome => ?_
    cases outcome with
    | noInstant => exact fun _ hs => hs
    | _ => exact spares_pure _
  | listen | accept | receive | transmit | close | removeFile => exact fun _ hs => hs
  | _ => exact hr.elim

/-- Something is noted about another block, which is then told of it. -/
theorem spares_mark {call : Call K} (hid : id' ≠ id) {hook : Hook}
    (hcall : (call id' hook).Spares id e) (f : Entry K → Entry K) (note : Notice) : (do
      modifyEntry id' f
      notify note
      discard (call id' hook)
      return .ok () : Run K (Except EngineError Unit)).Spares id e :=
  (spares_modifyEntry hid f).bind fun _ => (spares_notify note).bind fun _ =>
    hcall.discard.bind fun _ => spares_pure _

section Busy

variable (he : e.contents = none)

include he

/-- An operation that is done is one on another block. -/
theorem spares_withIdle {f : Entry K → K.Contents → Run K (Except EngineError α)}
    (h : id' ≠ id → ∀ e' c, (f e' c).Spares id e) : (withIdle id' f).Spares id e := by
  intro s hs
  unfold withIdle
  rw [abides_bind, abides_manager]
  by_cases hid : id' = id
  · subst hid
    simp only [hs, he]
    exact spares_refuse _ _ s hs
  split
  · exact spares_refuse _ _ s hs
  split
  · exact spares_refuse _ _ s hs
  · exact h hid _ _ s hs

theorem spares_del (id' : BlockId) : (del id' : Run K _).Spares id e := by
  refine spares_withIdle he fun hid e' c => ?_
  cases e'.state with
  | started => exact spares_refuse _ _
  | stopped =>
    refine spares_manager.bind fun m => ?_
    split
    · exact spares_refuse _ _
    · refine (spares_notify _).bind fun _ => (spares_erase hid).bind fun _ => ?_
      refine (spares_record _).bind fun _ => (spares_release _ _).bind fun _ => spares_pure _

/-- What is made of operations leaves a busy block alone, if the hooks do that are called. -/
theorem Operates.spares {call : Call K} {r : Run K α}
    (h : Operates call (fun r => r.IsDirect ∧ ¬ r.IsClear) r)
    (hcall : ∀ id' hook, (call id' hook).Spares id e) : r.Spares id e := by
  induction h with
  | pure a => exact spares_pure a
  | outOfFuel => exact fun _ _ => trivial
  | bind _ _ ihr ihf => exact ihr.bind ihf
  | manager => exact spares_manager
  | host => exact fun _ hs => hs
  | notify note => exact spares_notify note
  | remark m => exact spares_record _
  | readClock | wait => exact spares_onHost _
  | aside hf => exact spares_modifyManager fun m => (hf m).blocks
  | arm owner tid delay arg => exact spares_arm owner tid delay arg
  | disarm owner tid => exact spares_disarm owner tid
  | disarmAll => exact spares_modifyManager fun _ => rfl
  | popThen _ _ ihr ihf => exact spares_popThen ihr ihf
  | add id' type => exact spares_add id' type
  | start id' =>
    refine spares_withIdle he fun hid e' _ => ?_
    cases e'.state with
    | started => exact (spares_notify _).bind fun _ => spares_pure _
    | stopped => exact spares_mark hid (hcall _ _) _ _
  | stop id' =>
    refine spares_withIdle he fun hid e' _ => ?_
    cases e'.state with
    | stopped => exact (spares_notify _).bind fun _ => spares_pure _
    | started => exact spares_mark hid (hcall _ _) _ _
  | connect id' port dest =>
    refine spares_manager.bind fun m => ?_
    split
    · exact spares_withIdle he fun hid _ _ => spares_mark hid (hcall _ _) _ _
    · exact spares_refuse _ _
  | conf id' entry =>
    refine spares_withIdle he fun _ _ _ => (spares_notify _).bind fun _ => ?_
    exact (hcall id' (.configure entry)).discard.bind fun _ => spares_pure _
  | del id' => exact spares_del he id'
  | plain id' _ => exact hcall id' _
  | direct m hr => exact spares_direct m hr.1 hr.2

theorem spares_perform {call : Call K} (hcall : ∀ id' hook, (call id' hook).Spares id e) (m : Nat)
    {r : Request K.Factory K.Remark} (hr : ¬ r.IsClear) : (perform call m r).Spares id e :=
  (operates_perform m r fun hdirect => ⟨hdirect, hr⟩).spares he hcall

/-- A script that is played while a block is busy. What is done when it breaks off is given. -/
theorem abides_runScript_of_keeps {call : Call K} (hcall : ∀ id' hook, (call id' hook).Spares id e)
    (m : Nat) {S : Type} {P : S → Prop} {Q : α → Prop} (L : Machine K → Prop)
    {last : S → Run K Unit} (hlast : ∀ c t, P c → t.manager.blocks.get? id = some e →
      (last c).Abides (.sparing id e L) (fun _ u => L u) t)
    {script : Script K.Factory K.Remark S α} (hscript : script.Keeps P Q) {c : S} (hc : P c)
    {s : Machine K} (hs : s.manager.blocks.get? id = some e) :
    (runScript call m last c script).Abides (.sparing id e L)
      (fun p t => P p.2 ∧ t.manager.blocks.get? id = some e) s := by
  induction script generalizing c s with
  | done a => exact ⟨hc, hs⟩
  | keep c' next ih => exact ih hscript.2 hscript.1 hs
  | call r next ih =>
    unfold runScript
    rw [abides_bind]
    have hr := spares_perform he hcall m hscript.1 s hs
    refine Abides.mono (Abides.onBreakThen hr fun _ t ht => hlast c t hc ht) fun a t ht => ?_
    rw [abides_bind, abides_pause]
    exact ⟨ht, ih a (hscript.2 a) hc ht⟩

theorem spares_runScript {call : Call K} (hcall : ∀ id' hook, (call id' hook).Spares id e)
    (m : Nat) {S : Type} {P : S → Prop} {Q : α → Prop} {last : S → Run K Unit}
    (hlast : ∀ c, (last c).Spares id e) {script : Script K.Factory K.Remark S α}
    (hscript : script.Keeps P Q) (c : S) (hc : P c) :
    (runScript call m last c script).Spares id e := by
  intro s hs
  exact (abides_runScript_of_keeps he hcall m (·.manager.blocks.get? id = some e)
    (fun c t _ ht => hlast c t ht) hscript hc hs).mono fun _ _ ht => ht.2

/-- While a block is busy, every call of a hook leaves its entry alone. By induction on the depth of
calls. -/
theorem spares_callHook (hK : K.NeverClears) (n : Nat) (id' : BlockId) (hook : Hook) :
    (callHook n id' hook).Spares id e := by
  induction n generalizing id' hook with
  | zero => exact fun _ _ => trivial
  | succ n ih =>
    intro s hs
    unfold callHook enter
    rw [abides_bind, abides_manager]
    have hdropped : (do
        notify (.reentrantDropped id')
        return none : Run K (Option Reply)).Spares id e :=
      (spares_notify _).bind fun _ => spares_pure _
    by_cases hid : id' = id
    · subst hid
      simp only [hs, he]
      exact hdropped s hs
    cases s.manager.blocks.get? id' with
    | none => exact hs
    | some e' =>
      dsimp only
      cases e'.contents with
      | none => exact hdropped s hs
      | some c =>
        have hscript := spares_runScript he ih n (spares_leave hid e'.serial) (hK c id' hook) c
          trivial
        refine Spares.bind (spares_modifyEntry hid _) (fun _ => ?_) s hs
        refine (spares_record _).bind fun _ => spares_pause.bind fun _ => hscript.bind fun p => ?_
        exact (spares_leave hid _ _).bind fun _ => spares_pure _

end Busy

/-- The contents of an instance come back to its block. -/
theorem abides_leave_of_live {s : Machine K} (hs : s.manager.blocks.get? id = some e)
    (c : K.Contents) {I B : Machine K → Prop} : (leave id e.serial c).Abides (.along I B)
      (fun _ t => t.manager.blocks.get? id = some { e with contents := some c }) s := by
  unfold leave giveBack
  simp only [abides_bind, abides_record, abides_manager, hs, if_true, abides_modifyEntry]
  rw [Keyed.get?_modify, if_pos rfl, hs]
  rfl

/-- Inside of a hook of a block nothing about the block changes. After it nothing has changed but
its contents, for which `P` holds if it holds of all that the hook says that they are. -/
theorem abides_callHook_of_keeps (hK : K.NeverClears) {s : Machine K} {c : K.Contents}
    (hs : s.manager.blocks.get? id = some e) (hc : e.contents = some c) {P : K.Contents → Prop}
    (hP : P c) {hook : Hook} {Q : Reply → Prop} (hscript : (K.hook c id hook).Keeps P Q)
    (n : Nat) :
    (callHook n id hook).Abides
      (.sparing id { e with contents := none } fun t =>
        ∃ c', P c' ∧ t.manager.blocks.get? id = some { e with contents := some c' })
      (fun _ t => ∃ c', P c' ∧ t.manager.blocks.get? id = some { e with contents := some c' })
      s := by
  cases n with
  | zero => exact trivial
  | succ n =>
    have hbusy : (s.entered e.serial id hook).manager.blocks.get? id =
        some { e with contents := none } := Machine.get?_within hs
    unfold callHook enter
    rw [abides_bind, abides_manager]
    simp only [hs, hc]
    rw [abides_bind, abides_modifyEntry, abides_bind, abides_record, abides_bind,
      abides_pause, abides_bind]
    refine ⟨hbusy, ?_⟩
    refine (abides_runScript_of_keeps rfl (spares_callHook rfl hK n) n (fun t => ∃ c', P c' ∧
      t.manager.blocks.get? id = some { e with contents := some c' }) (fun c' t hc' ht => ?_)
      hscript hP hbusy).mono fun p t ht => ?_
    · exact (abides_leave_of_live ht c').mono fun _ _ hu => ⟨c', hc', hu⟩
    · rw [abides_bind]
      exact (abides_leave_of_live ht.2 p.2).mono fun _ _ hu => ⟨p.2, ht.1, hu⟩

end Run

end BlockFlow
