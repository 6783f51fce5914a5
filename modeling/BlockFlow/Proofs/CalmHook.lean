import BlockFlow.Proofs.Terms
import BlockFlow.Proofs.Step

/-!
# Hooks that leave the engine alone

Many hooks ask nothing of the engine that calls them: they use the host, make notices and remarks,
and come to their end. The call of such a hook always has a result, and it changes nothing but the
contents of its block.

1. `Machine.deeds`: what happened to instances.
2. `Script.IsCalm`, `Kit.IsCalm`: scripts that leave the engine alone, and kits of blocks whose
   lifecycle hooks do.
3. `ends_runScript`, `ends_enter`, `ends_callHook`: what comes of such a script and of the call of
   such a hook.
-/

namespace BlockFlow

variable {K : Kit}

/-! ## Deeds -/

/-- Whether an event happens to an instance; notices and remarks do not. -/
def Event.isDeed : Event K → Bool
  | .notice _ => false
  | .remark _ => false
  | _ => true

/-- What happened to instances, in order. -/
def Machine.deeds (s : Machine K) : List (Event K) := (s.events.filter (·.isDeed)).reverse

/-- From one machine to another the manager stays the same, and nothing happens to an instance. -/
structure Machine.Spares (s t : Machine K) : Prop where
  manager : t.manager = s.manager
  deeds : t.deeds = s.deeds

theorem Machine.Spares.trans {s t u : Machine K} (h : s.Spares t) (h' : t.Spares u) : s.Spares u :=
  ⟨h'.manager.trans h.manager, h'.deeds.trans h.deeds⟩

theorem Machine.deeds_append {s t : Machine K} (es : List (Event K))
    (h : t.events = es ++ s.events) : t.deeds = s.deeds ++ (es.filter (·.isDeed)).reverse := by
  unfold deeds
  rw [h, List.filter_append, List.reverse_append]

/-! ## Calm scripts -/

/-- Requests that are no matter of the engine, and cannot break off. -/
def Request.IsCalm {F M : Type} : Request F M → Prop
  | .act (.advance _) => False
  | .act _ => True
  | .listen _ => True
  | .waiting _ => True
  | .accept _ => True
  | .receive _ => True
  | .transmit .. => True
  | .close _ => True
  | .removeFile _ => True
  | .notice _ => True
  | .remark _ => True
  | _ => False

/-- Scripts that ask nothing of the engine, and cannot break off. -/
def Script.IsCalm {F M S α : Type} : Script F M S α → Prop
  | .done _ => True
  | .keep _ next => next.IsCalm
  | .call r next => r.IsCalm ∧ ∀ x, (next x).IsCalm

def Hook.IsLifecycle : Hook → Prop
  | .bind _ _ => True
  | .start => True
  | .stop => True
  | .configure _ => True
  | _ => False

/-- The lifecycle hooks of all blocks leave the engine alone. -/
def Kit.IsCalm (K : Kit) : Prop :=
  ∀ (c : K.Contents) (id : BlockId) (hook : Hook), hook.IsLifecycle → (K.hook c id hook).IsCalm

namespace Run

variable {call : Call K} {n : Nat} {s : Machine K}

theorem ends_perform {r : Request K.Factory K.Remark} (hr : r.IsCalm) :
    (perform call n r).Abides .total (fun _ t => s.Spares t) s := by
  cases r with
  | act a =>
    show Abides .total _ (onHost (·.act a) >>= _) s
    rw [abides_bind, abides_onHost]
    cases houtcome : (s.host.act a).1 with
    | noInstant =>
      obtain ⟨d, rfl⟩ := Host.exists_of_act_eq_noInstant houtcome
      exact hr.elim
    | _ => exact ⟨rfl, rfl⟩
  | listen | waiting | accept | receive | transmit | close | removeFile | notice | remark =>
    exact ⟨rfl, rfl⟩
  | _ => exact hr.elim

theorem ends_runScript {S α : Type} {leave : S → Run K Unit}
    {script : Script K.Factory K.Remark S α} (hscript : script.IsCalm) (c : S) :
    (runScript call n leave c script).Abides .total (fun _ t => s.Spares t) s := by
  induction script generalizing c s with
  | done a => exact ⟨rfl, rfl⟩
  | keep c' next ih => exact ih hscript c'
  | call r next ih =>
    obtain ⟨hr, hnext⟩ := hscript
    unfold runScript
    rw [abides_bind]
    refine (Abides.onBreak (ends_perform hr) _).mono fun x t ht => ?_
    rw [abides_bind, abides_pause]
    exact (ih x (hnext x) c).mono fun _ u hu => ht.trans hu

/-- A hook leaves its block with some contents, and changes nothing else, if its script spares the
engine. Whatever else holds of the contents it leaves and of the host holds after the call. -/
theorem ends_enter {call : Call K} {id : BlockId} {e : Entry K} {c : K.Contents}
    (he : s.manager.blocks.get? id = some e) (hc : e.contents = some c) {hook : Hook}
    {P : K.Contents → Host → Prop}
    (hscript : (runScript call n (leave id e.serial) c (K.hook c id hook)).Abides .total
      (fun r t => (s.entered e.serial id hook).Spares t ∧ P r.2 t.host)
      (s.entered e.serial id hook)) :
    (enter call n id hook).Abides .total
      (fun _ t => ∃ c', P c' t.host ∧ t.manager =
          { s.manager with blocks := s.manager.blocks.modify id ({ · with contents := some c' }) } ∧
        t.deeds = s.deeds ++ [.entered e.serial id hook, .left e.serial]) s := by
  unfold enter
  simp only [abides_bind, abides_manager, he, hc, abides_modifyEntry, abides_record, abides_pause]
  refine Abides.mono hscript fun r t ht => ?_
  obtain ⟨hspares, hP⟩ := ht
  have hget : t.manager.blocks.get? id = some { e with contents := none } := by
    rw [hspares.manager]
    simp [Machine.entered, Keyed.get?_modify, he]
  unfold leave giveBack
  simp only [abides_bind, abides_record, abides_manager, hget, if_true, abides_modifyEntry,
    abides_pure]
  refine ⟨r.2, hP, ?_, ?_⟩
  · rw [hspares.manager]
    simp only [Machine.entered, Keyed.modify_modify]
  · rw [Machine.deeds_append (s := t) [.left e.serial] rfl, hspares.deeds,
      Machine.deeds_append (s := s) [.entered e.serial id hook] rfl, List.append_assoc]
    rfl

/-- The call of a calm hook leaves the block with some contents, and nothing else is changed. -/
theorem ends_callHook {id : BlockId} {e : Entry K} {c : K.Contents}
    (he : s.manager.blocks.get? id = some e) (hc : e.contents = some c) {hook : Hook}
    (hcalm : (K.hook c id hook).IsCalm) :
    (callHook (n + 1) id hook).Abides .total
      (fun _ t => ∃ c', t.manager =
          { s.manager with blocks := s.manager.blocks.modify id ({ · with contents := some c' }) } ∧
        t.deeds = s.deeds ++ [.entered e.serial id hook, .left e.serial]) s := by
  have hscript : (runScript (callHook n) n (leave id e.serial) c (K.hook c id hook)).Abides .total
      (fun _ t => (s.entered e.serial id hook).Spares t) (s.entered e.serial id hook) :=
    ends_runScript hcalm c
  refine (ends_enter (P := fun _ _ => True) he hc (hscript.mono fun _ _ ht => ⟨ht, trivial⟩)).mono
    fun _ t ht => ?_
  obtain ⟨c', -, hchange⟩ := ht
  exact ⟨c', hchange⟩

end Run

end BlockFlow
