import BlockFlow.Proofs.CalmHook
import BlockFlow.Proofs.Readiness
import BlockFlow.Proofs.Routing
import Mathlib.Data.List.Basic

/-!
# Dispatch of ready descriptors

A poll takes the watches that are ready, and their turns come one after the other, while the hooks
that are called add and remove watches and blocks. What a turn comes to is told from the machine as
it is then.

1. `Turn`, `Turns`: the turns of ready watches, one after the other; `Turns.comes`: the delivery of
   events does what the turns say.
2. `Script.IsMute`: scripts that ask nothing of the engine; while just such scripts are played, all
   calls come to what they would have come to before (`Machine.Undisturbed`).
3. `dispatch`: what a poll does to all watches; `dispatch_meddle`: a poll during which a hook has a
   descriptor unwatched and polls the others itself.
-/

namespace BlockFlow

variable {K : Kit} {α β : Type}

/-! ## Turns -/

/-- The turn of a ready watch, and the machine then. -/
structure Turn (K : Kit) where
  watch : Watch
  before : Machine K

/-- The call that a turn leads to: none if the source is not watched any more, or if the owner is
not live or busy. -/
def Turn.calls (τ : Turn K) : List Visit :=
  if τ.before.manager.watches.contains τ.watch.source then
    τ.before.visitOf τ.watch.owner (.event τ.watch)
  else []

/-- The turns of watches, one after the other, and what they come to: nothing if one of them lacks
fuel. -/
inductive Turns (call : Call K) : Machine K → List Watch → List (Turn K) →
    Option (Except Breakdown Unit × Machine K) → Prop
  | none {s : Machine K} : Turns call s [] [] (some (.ok (), s))
  /-- What the turn leads to lacks fuel. -/
  | lacks {s : Machine K} {w : Watch} {ws : List Watch}
    (h : s.run? (Run.deliverEvent call w) = none) : Turns call s (w :: ws) [⟨w, s⟩] none
  /-- What the turn leads to breaks off. -/
  | breaks {s t : Machine K} {w : Watch} {ws : List Watch} {b : Breakdown}
    (h : s.run? (Run.deliverEvent call w) = some (.error b, t)) :
    Turns call s (w :: ws) [⟨w, s⟩] (some (.error b, t))
  /-- The next watch has its turn. -/
  | next {s t : Machine K} {w : Watch} {ws : List Watch} {τs : List (Turn K)}
    {x : Option (Except Breakdown Unit × Machine K)}
    (h : s.run? (Run.deliverEvent call w) = some (.ok (), t)) (hrest : Turns call t ws τs x) :
    Turns call s (w :: ws) (⟨w, s⟩ :: τs) x

/-- What a turn leads to comes back. -/
def Turn.Returns (call : Call K) (τ : Turn K) : Prop :=
  ∃ t, τ.before.run? (Run.deliverEvent call τ.watch) = some (.ok (), t)

theorem Turn.length_calls (τ : Turn K) : τ.calls.length ≤ 1 := by
  unfold calls Machine.visitOf
  split
  · split
    · exact Nat.zero_le 1
    · split
      · exact Nat.zero_le 1
      · exact Nat.le_refl 1
  · exact Nat.zero_le 1

/-- A call is made on the owner, which is live and not busy, as long as the source is watched. -/
structure Turn.Calls (τ : Turn K) (v : Visit) : Prop where
  watched : τ.before.manager.watches.contains τ.watch.source
  id_eq : v.id = τ.watch.owner
  hook_eq : v.hook = .event τ.watch
  live : ∃ e, τ.before.manager.blocks.get? τ.watch.owner = some e ∧ e.serial = v.serial ∧
    e.contents ≠ none

theorem Turn.mem_calls {τ : Turn K} {v : Visit} : v ∈ τ.calls ↔ τ.Calls v := by
  unfold calls
  constructor
  · intro hv
    split at hv
    · next hwatched =>
      cases he : τ.before.manager.blocks.get? τ.watch.owner with
      | none =>
        rw [Machine.visitOf_of_unknown he] at hv
        cases hv
      | some e =>
        by_cases hc : e.contents = none
        · rw [Machine.visitOf_of_busy he hc] at hv
          cases hv
        · rw [Machine.visitOf_of_idle he hc, List.mem_singleton] at hv
          subst hv
          exact ⟨hwatched, rfl, rfl, e, he, rfl, hc⟩
    · cases hv
  · rintro ⟨hwatched, hid, hhook, e, he, hserial, hc⟩
    rw [if_pos hwatched, Machine.visitOf_of_idle he hc, hserial, ← hid, ← hhook]
    exact List.mem_singleton.2 rfl

/-- Hooks that are called for watches: one of the owner for each watch, in order. -/
def Visit.AreFor (vs : List Visit) (ws : List Watch) : Prop :=
  vs.map (fun v => (v.id, v.hook)) = ws.map fun w => (w.owner, Hook.event w)

/-- The calls of turns are for some of the watches, in their order. -/
theorem exists_sublist_calls (τs : List (Turn K)) :
    ∃ ws, List.Sublist ws (τs.map (·.watch)) ∧ Visit.AreFor (τs.flatMap (·.calls)) ws := by
  induction τs with
  | nil => exact ⟨[], .slnil, rfl⟩
  | cons τ τs ih =>
    obtain ⟨ws, hsub, hcalls⟩ := ih
    rw [List.flatMap_cons, List.map_cons]
    cases hτ : τ.calls with
    | nil => exact ⟨ws, hsub.cons _, hcalls⟩
    | cons v vs =>
      have hlen := τ.length_calls
      rw [hτ, List.length_cons] at hlen
      obtain rfl : vs = [] := List.length_eq_zero_iff.1 (by omega)
      have hv : τ.Calls v := Turn.mem_calls.1 (hτ ▸ List.mem_singleton.2 rfl)
      refine ⟨τ.watch :: ws, hsub.cons_cons _, ?_⟩
      exact congrArg₂ List.cons (congrArg₂ Prod.mk hv.id_eq hv.hook_eq) hcalls

namespace Run

variable {s t : Machine K} {n : Nat} {vs ws : List Visit}

theorem Comes.bind {r : Run K α} {f : α → Run K β} {a : α}
    {x : Option (Except Breakdown β × Machine K)} (h : r.Comes s vs (some (.ok a, t)))
    (hf : (f a).Comes t ws x) : (r >>= f).Comes s (vs ++ ws) x where
  run?_eq := by
    rw [run?_bind, h.run?_eq]
    exact hf.run?_eq
  visits := h.visits.bind h.run?_eq hf.visits

/-- A first part that calls no hook adds nothing to the calls of the rest. -/
theorem Comes.bind_of_nil {r : Run K α} {f : α → Run K β} {a : α}
    {x : Option (Except Breakdown β × Machine K)} (h : r.Comes s [] (some (.ok a, t)))
    (hf : (f a).Comes t vs x) : (r >>= f).Comes s vs x :=
  h.bind hf

theorem comes_pure (a : α) (s : Machine K) : (pure a : Run K α).Comes s [] (some (.ok a, s)) :=
  ⟨rfl, visits_pure a s⟩

theorem comes_notify (note : Notice) (s : Machine K) :
    (notify note : Run K Unit).Comes s [] (some (.ok (), s.noticed [note])) :=
  ⟨rfl, visits_notify note s⟩

theorem comes_notifyAll (ns : List Notice) (s : Machine K) :
    (notifyAll ns : Run K Unit).Comes s [] (some (.ok (), s.noticed ns)) := by
  induction ns generalizing s with
  | nil => exact comes_pure () s
  | cons note ns ih =>
    have hnoticed : s.noticed (note :: ns) = (s.noticed [note]).noticed ns := by
      simp [Machine.noticed]
    rw [hnoticed]
    exact (comes_notify note s).bind (ih _)

theorem visits_onHost (f : Host → α × Host) (s : Machine K) : (onHost f : Run K α).Visits s [] := by
  have hvisits : Machine.visits { s with host := (f s.host).2 } s.stack = s.visits s.stack ++ [] :=
    (List.append_nil _).symm
  exact ⟨⟨[], List.prefix_rfl, hvisits⟩, rfl, hvisits⟩

/-- The delivery of an event makes the call of the turn. -/
theorem visits_deliverEvent (n : Nat) (w : Watch) (s : Machine K) :
    (deliverEvent (callHook n) w).Visits s (Turn.calls ⟨w, s⟩) := by
  unfold deliverEvent Turn.calls
  refine (Comes.manager (x := s.run? _) ⟨rfl, ?_⟩).visits
  dsimp only
  by_cases hwatched : s.manager.watches.contains w.source
  · rw [if_pos hwatched, if_neg (by simp [hwatched])]
    split
    · next hlive =>
      rw [Machine.visitOf_of_unknown (by simpa [Keyed.contains] using hlive)]
      exact visits_notify _ s
    · exact (visits_callHook n w.owner (.event w) s).discard
  · rw [if_neg hwatched, if_pos (by simpa using hwatched)]
    exact visits_notify _ s

end Run

open Run

section Turns

variable {s t : Machine K} {n : Nat} {ws : List Watch} {τs : List (Turn K)}
  {x : Option (Except Breakdown Unit × Machine K)}

/-- The delivery of events does what the turns say. -/
theorem Turns.comes (h : Turns (callHook n) s ws τs x) :
    (deliverEvents (callHook n) ws).Comes s (τs.flatMap (·.calls)) x := by
  induction h with
  | none => exact comes_pure () _
  | @lacks s w ws h =>
    rw [List.flatMap_cons, List.flatMap_nil, List.append_nil]
    refine ⟨by rw [deliverEvents, run?_bind, h], ?_⟩
    exact (visits_deliverEvent n w s).bind_of_no_result fun a t ht => by simp [h] at ht
  | @breaks s t w ws b h =>
    rw [List.flatMap_cons, List.flatMap_nil, List.append_nil]
    refine ⟨by rw [deliverEvents, run?_bind, h], ?_⟩
    exact (visits_deliverEvent n w s).bind_of_no_result fun a t ht => by simp [h] at ht
  | @next s t w ws τs x h _ ih =>
    rw [List.flatMap_cons]
    exact Comes.bind ⟨h, visits_deliverEvent n w s⟩ ih

theorem exists_turns (call : Call K) (s : Machine K) (ws : List Watch) :
    ∃ τs x, Turns call s ws τs x := by
  induction ws generalizing s with
  | nil => exact ⟨_, _, .none⟩
  | cons w ws ih =>
    cases h : s.run? (deliverEvent call w) with
    | none => exact ⟨_, _, .lacks h⟩
    | some result =>
      obtain ⟨y, t⟩ := result
      cases y with
      | error b => exact ⟨_, _, .breaks h⟩
      | ok a =>
        obtain ⟨τs, x, hrest⟩ := ih t
        exact ⟨_, _, .next h hrest⟩

/-- The turns are those of the first of the watches. -/
theorem Turns.watches_prefix {call : Call K} (h : Turns call s ws τs x) :
    τs.map (·.watch) <+: ws := by
  induction h with
  | none => exact List.prefix_rfl
  | @lacks _ w ws => exact ⟨ws, rfl⟩
  | @breaks _ _ w ws => exact ⟨ws, rfl⟩
  | next _ _ ih => exact (List.prefix_cons_inj _).2 ih

/-- If the turns come to an end, they are those of all watches. -/
theorem Turns.watches_eq {call : Call K} (h : Turns call s ws τs x) (hx : x = some (.ok (), t)) :
    τs.map (·.watch) = ws := by
  induction h with
  | none => rfl
  | lacks | breaks => cases hx
  | next _ _ ih => exact congrArg _ (ih hx)

theorem Turns.exists_end {call : Call K} (h : Turns call s ws τs x)
    (hτs : ∀ τ ∈ τs, τ.Returns call) : ∃ t, x = some (.ok (), t) := by
  induction h with
  | none => exact ⟨_, rfl⟩
  | lacks h =>
    obtain ⟨t, ht⟩ := hτs _ (.head _)
    rw [h] at ht
    cases ht
  | breaks h =>
    obtain ⟨t, ht⟩ := hτs _ (.head _)
    rw [h] at ht
    cases ht
  | next _ _ ih => exact ih fun τ hτ => hτs τ (.tail _ hτ)

/-- What each turn keeps holds at all of them. -/
theorem Turns.keeps {call : Call K} {P : Machine K → Prop} (h : Turns call s ws τs x)
    (hP : ∀ u v w, P u → u.run? (deliverEvent call w) = some (.ok (), v) → P v) (hs : P s) :
    ∀ τ ∈ τs, P τ.before := by
  induction h with
  | none => exact fun τ hτ => by cases hτ
  | lacks | breaks => exact List.forall_mem_singleton.2 hs
  | next h _ ih => exact List.forall_mem_cons.2 ⟨hs, ih (hP _ _ _ hs h)⟩

end Turns

/-! ## Mute hooks -/

/-- Requests that are no matter of the engine. -/
def Request.IsMute {F M : Type} : Request F M → Prop
  | .act _ => True
  | r => r.IsCalm

/-- Scripts that ask nothing of the engine. -/
def Script.IsMute {F M S α : Type} : Script F M S α → Prop
  | .done _ => True
  | .keep _ next => next.IsMute
  | .call r next => r.IsMute ∧ ∀ x, (next x).IsMute

/-- From one machine to another the same is watched, and calls come to the same. -/
structure Machine.Undisturbed (s t : Machine K) : Prop where
  watches : t.manager.watches = s.manager.watches
  visitOf (id : BlockId) (hook : Hook) : t.visitOf id hook = s.visitOf id hook

namespace Machine.Undisturbed

variable {s t u : Machine K}

theorem of_manager_eq (h : t.manager = s.manager) : s.Undisturbed t :=
  ⟨by rw [h], fun id hook => by rw [Machine.visitOf, h, Machine.visitOf]⟩

theorem trans (h : s.Undisturbed t) (h' : t.Undisturbed u) : s.Undisturbed u :=
  ⟨h'.watches.trans h.watches, fun id hook => (h'.visitOf id hook).trans (h.visitOf id hook)⟩

/-- The contents of a block are others than before. -/
theorem of_regained {id : BlockId} {e : Entry K} (he : s.manager.blocks.get? id = some e)
    (hc : e.contents ≠ none) (c : K.Contents) (ht : t.manager =
      { s.manager with blocks := s.manager.blocks.modify id ({ · with contents := some c }) }) :
    s.Undisturbed t := by
  refine ⟨by rw [ht], fun id' hook => ?_⟩
  have hget : t.manager.blocks.get? id' = if id = id' then
      (s.manager.blocks.get? id').map ({ · with contents := some c })
    else s.manager.blocks.get? id' := by
    rw [ht]
    exact Keyed.get?_modify ..
  by_cases hid : id = id'
  · subst hid
    rw [if_pos rfl, he, Option.map_some] at hget
    rw [visitOf_of_idle hget (Option.some_ne_none c), visitOf_of_idle he hc]
  · rw [if_neg hid] at hget
    unfold Machine.visitOf
    rw [hget]

end Machine.Undisturbed

theorem Request.IsCalm.isMute {F M : Type} {r : Request F M} (h : r.IsCalm) : r.IsMute := by
  cases r with
  | act => trivial
  | _ => exact h

theorem Script.IsCalm.isMute {F M S α : Type} {script : Script F M S α} (h : script.IsCalm) :
    script.IsMute := by
  induction script with
  | done => trivial
  | keep _ _ ih => exact ih h
  | call r next ih => exact ⟨h.1.isMute, fun x => ih x (h.2 x)⟩

namespace Run

variable {s : Machine K} {call : Call K} {n : Nat}

theorem abides_perform_of_isMute {r : Request K.Factory K.Remark} (hr : r.IsMute) :
    (perform call n r).Abides .free (fun _ t => t.manager = s.manager) s := by
  have hcalm (h : r.IsCalm) :
      (perform call n r).Abides .free (fun _ t => t.manager = s.manager) s :=
    (ends_perform h).free.mono fun _ _ ht => ht.manager
  cases r with
  | act a =>
    show Abides .free _ (onHost (·.act a) >>= _) s
    simp only [abides_bind, abides_onHost]
    split
    · trivial
    · rfl
  | _ => exact hcalm hr

theorem abides_runScript_of_isMute {S : Type} {leave : S → Run K Unit}
    {script : Script K.Factory K.Remark S α} (hscript : script.IsMute) (c : S) :
    (runScript call n leave c script).Abides .free (fun _ t => t.manager = s.manager) s := by
  induction script generalizing c s with
  | done a => exact rfl
  | keep c' next ih => exact ih hscript c'
  | call r next ih =>
    obtain ⟨hr, hnext⟩ := hscript
    unfold runScript
    rw [abides_bind]
    refine Abides.mono (Abides.onBreakThen (abides_perform_of_isMute hr) fun _ _ _ => ?_)
      fun a t ht => ?_
    · exact abides_free fun _ _ => trivial
    · exact (ih a (hnext a) c).mono fun _ _ hu => hu.trans ht

/-- The call of a mute hook disturbs nothing, if it comes back. -/
theorem abides_callHook_of_isMute {id : BlockId} {hook : Hook}
    (hmute : ∀ c, (K.hook c id hook).IsMute) :
    (callHook n id hook).Abides .free (fun _ t => s.Undisturbed t) s := by
  cases n with
  | zero => trivial
  | succ n =>
    unfold callHook enter
    rw [abides_bind, abides_manager]
    cases he : s.manager.blocks.get? id with
    | none => exact .of_manager_eq rfl
    | some e =>
      cases hc : e.contents with
      | none =>
        simp only [hc]
        exact Machine.Undisturbed.of_manager_eq rfl
      | some c =>
        simp only [hc, abides_bind, abides_modifyEntry, abides_record, abides_pause]
        refine (abides_runScript_of_isMute (hmute c) c).mono fun result t ht => ?_
        have hget : t.manager.blocks.get? id = some { e with contents := none } := by
          rw [ht]
          simp [Keyed.get?_modify, he]
        unfold leave giveBack
        simp only [abides_bind, abides_record, abides_manager, hget, if_true,
          abides_modifyEntry, abides_pure]
        refine .of_regained he (by simp [hc]) result.2 ?_
        rw [ht]
        simp only [Keyed.modify_modify]

/-- The delivery of an event to a mute hook disturbs nothing, if it comes back. -/
theorem undisturbed_of_deliverEvent {w : Watch} {t : Machine K}
    (hmute : ∀ c, (K.hook c w.owner (.event w)).IsMute)
    (hrun : s.run? (deliverEvent (callHook n) w) = some (.ok (), t)) : s.Undisturbed t := by
  have hdelivered : (deliverEvent (callHook n) w).Abides .free (fun _ t => s.Undisturbed t) s := by
    unfold deliverEvent
    rw [abides_bind, abides_manager]
    split
    · exact Machine.Undisturbed.of_manager_eq rfl
    split
    · exact Machine.Undisturbed.of_manager_eq rfl
    · rw [abides_discard]
      exact abides_callHook_of_isMute hmute
  exact hdelivered.result hrun

/-- The delivery of an event to a calm hook comes back. -/
theorem exists_of_deliverEvent {w : Watch} (hcalm : ∀ c, (K.hook c w.owner (.event w)).IsCalm)
    (s : Machine K) (n : Nat) :
    ∃ t, s.run? (deliverEvent (callHook (n + 1)) w) = some (.ok (), t) := by
  have hends : (deliverEvent (callHook (n + 1)) w).Abides .total (fun _ _ => True) s := by
    unfold deliverEvent
    rw [abides_bind, abides_manager]
    split
    · trivial
    split
    · trivial
    · next hlive =>
      obtain ⟨e, he⟩ : ∃ e, s.manager.blocks.get? w.owner = some e :=
        Option.ne_none_iff_exists'.1 (by simpa [Keyed.contains] using hlive)
      rw [abides_discard]
      cases hc : e.contents with
      | none => exact abides_total_iff.2 ⟨_, _, run?_callHook_of_busy he hc n _, trivial⟩
      | some c => exact (ends_callHook he hc (hcalm c)).mono fun _ _ _ => trivial
  obtain ⟨a, t, hrun, -⟩ := abides_total_iff.1 hends
  exact ⟨t, hrun⟩

end Run

/-! ## Polls -/

namespace Machine

def ready (s : Machine K) : List Watch := s.manager.watches.ready s.host

/-- The machine when the turns of the ready watches begin. -/
def polled (s : Machine K) : Machine K :=
  s.noticed ((s.manager.watches.silentOwners s.host).map .socketSilent ++
    [.polled s.manager.watches.size s.ready.length])

/-- There are not too many numbers among the watches for one poll. -/
def CanPoll (s : Machine K) : Prop := s.manager.watches.requests.length ≤ s.host.pollLimit

instance decidableCanPoll (s : Machine K) : Decidable s.CanPoll :=
  inferInstanceAs (Decidable (_ ≤ _))

variable {s : Machine K} {w : Watch}

theorem contains_of_mem_ready (hw : w ∈ s.ready) : s.manager.watches.contains w.source :=
  List.any_eq_true.2 ⟨w, (List.mem_filter.1 hw).1, decide_eq_true rfl⟩

end Machine

namespace Run

variable {s t : Machine K} {call : Call K} {vs : List Visit} {w : Watch} {ws : List Watch}

theorem Comes.host {f : Host → Run K α} {x : Option (Except Breakdown α × Machine K)}
    (h : (f s.host).Comes s vs x) : (Run.host >>= f).Comes s vs x :=
  ⟨h.run?_eq, h.visits⟩

theorem Comes.map {r : Run K α} {x : Option (Except Breakdown α × Machine K)} (h : r.Comes s vs x)
    (f : α → β) :
    (do return f (← r) : Run K β).Comes s vs (x.map fun p => (p.1.map f, p.2)) := by
  obtain ⟨hrun, hvisits⟩ := h
  cases x with
  | none =>
    exact ⟨by rw [run?_bind, hrun]; rfl,
      hvisits.bind_of_no_result fun a t ht => by simp [hrun] at ht⟩
  | some p =>
    obtain ⟨y, t⟩ := p
    cases y with
    | error b =>
      exact ⟨by rw [run?_bind, hrun]; rfl,
        hvisits.bind_of_no_result fun a t ht => by simp [hrun] at ht⟩
    | ok a =>
      have hbind := Comes.bind (f := fun a => pure (f a)) ⟨hrun, hvisits⟩ (comes_pure (f a) t)
      rwa [List.append_nil] at hbind

theorem comes_poll_of_nil (hpoll : s.CanPoll) (hready : s.ready = []) :
    (Run.poll call).Comes s [] (some (.ok (.ok 0),
      { s.noticed ((s.manager.watches.silentOwners s.host).map .socketSilent) with
        host := s.host.wait s.manager.settings.pollTimeout })) := by
  refine .manager (.host ?_)
  refine (comes_notifyAll _ s).bind_of_nil ?_
  simp only [WatchTable.poll_eq hpoll]
  rw [show s.manager.watches.ready s.host = [] from hready]
  exact Comes.bind ⟨rfl, visits_onHost _ _⟩ (comes_pure _ _)

/-- A poll comes to what the delivery of the ready watches comes to. -/
theorem Comes.poll {x : Option (Except Breakdown Unit × Machine K)} (hpoll : s.CanPoll)
    (hready : s.ready ≠ []) (h : (deliverEvents call s.ready).Comes s.polled vs x) :
    (Run.poll call).Comes s vs (x.map fun p => (p.1.map fun _ => .ok s.ready.length, p.2)) := by
  obtain ⟨w, ws, hcons⟩ := List.exists_cons_of_ne_nil hready
  have hpolled : s.polled = (s.noticed ((s.manager.watches.silentOwners s.host).map
      .socketSilent)).noticed [.polled s.manager.watches.size s.ready.length] := by
    simp [Machine.polled, Machine.noticed]
  rw [hpolled] at h
  refine .manager (.host ?_)
  refine (comes_notifyAll _ s).bind_of_nil ?_
  simp only [WatchTable.poll_eq hpoll]
  rw [show s.manager.watches.ready s.host = s.ready from rfl]
  rw [hcons] at h ⊢
  exact (comes_notify _ _).bind (h.map _)

/-- A poll comes to a result if the delivery of the ready watches does. -/
theorem ends_poll {Q : Except Host.Failure Nat → Machine K → Prop} (hpoll : s.CanPoll)
    (hready : s.ready ≠ []) {n : Nat}
    (h : (deliverEvents (callHook n) s.ready).Abides .total (fun _ t => Q (.ok s.ready.length) t)
      s.polled) :
    (Run.poll (callHook n)).Abides .total Q s := by
  obtain ⟨_, t, hrun, hQ⟩ := abides_total_iff.1 h
  obtain ⟨τs, x, hturns⟩ := exists_turns (callHook n) s.polled s.ready
  have hcomes := hturns.comes
  obtain rfl := hcomes.run?_eq.symm.trans hrun
  exact abides_total_iff.2 ⟨_, t, (Comes.poll hpoll hready hcomes).run?_eq, hQ⟩

end Run

/-- What a poll does that begins with a machine: the watches that are ready have their turns, which
come to `x`. -/
structure Machine.Dispatches (s : Machine K) (n : Nat) (τs : List (Turn K))
    (x : Option (Except Breakdown Unit × Machine K)) : Prop where
  /-- The turns are those of the watches that were ready when the poll began, and of no others. -/
  turns : Turns (callHook n) s.polled s.ready τs x
  /-- No two of these have the same source. -/
  distinct : s.ready.Pairwise fun a b => a.source ≠ b.source
  /-- Each turn leads to its calls, and to no other. -/
  calls : ∀ τ ∈ τs, (deliverEvent (callHook n) τ.watch).Visits τ.before τ.calls
  /-- These are calls of owners that are live and not busy then, for sources that are watched
  then. -/
  called : ∀ τ ∈ τs, ∀ v, v ∈ τ.calls ↔ τ.Calls v
  /-- Nothing else is called by the poll itself. -/
  visits : (poll (callHook n)).Visits s (τs.flatMap (·.calls))
  /-- Calls are made in the order of the table, at most one for each watch that was ready. -/
  inOrder : ∃ ws, List.Sublist ws s.ready ∧ Visit.AreFor (τs.flatMap (·.calls)) ws
  /-- The result is the number of watches that were ready, and all of them have had their turns. -/
  result : ∀ a t, s.run? (poll (callHook n)) = some (.ok a, t) →
    a = .ok s.ready.length ∧ τs.map (·.watch) = s.ready
  /-- There is a result if what each turn leads to comes back. -/
  returns : (∀ τ ∈ τs, τ.Returns (callHook n)) →
    ∃ t, s.run? (poll (callHook n)) = some (.ok (.ok s.ready.length), t)
  /-- If the hooks ask nothing of the engine, a turn leads to the call that would have been made
  when the poll began. -/
  mute : (∀ c id w, (K.hook c id (.event w)).IsMute) →
    τs.flatMap (·.calls) = (τs.map (·.watch)).flatMap fun w => s.visitOf w.owner (.event w)
  /-- If they cannot break off either, all these calls are made, and there is a result. -/
  calm : (∀ c id w, (K.hook c id (.event w)).IsCalm) → 0 < n →
    τs.flatMap (·.calls) = s.ready.flatMap (fun w => s.visitOf w.owner (.event w)) ∧
      ∃ t, s.run? (poll (callHook n)) = some (.ok (.ok s.ready.length), t)

section Dispatch

variable {s t : Machine K} {n : Nat} {τs : List (Turn K)}
  {x : Option (Except Breakdown Unit × Machine K)}

theorem mem_ready_of_turns (h : Turns (callHook n) s.polled s.ready τs x) {τ : Turn K}
    (hτ : τ ∈ τs) : τ.watch ∈ s.ready :=
  h.watches_prefix.subset (List.mem_map_of_mem hτ)

/-- Mute hooks leave each call as it was when the poll began. -/
theorem Turns.calls_of_mute (h : Turns (callHook n) s.polled s.ready τs x)
    (hmute : ∀ c id w, (K.hook c id (.event w)).IsMute) :
    τs.flatMap (·.calls) =
      (τs.map (·.watch)).flatMap fun w => s.visitOf w.owner (.event w) := by
  have hkeep := h.keeps (P := s.Undisturbed)
    (fun u v w hu hrun => hu.trans (undisturbed_of_deliverEvent (fun c => hmute c _ w) hrun))
    (.of_manager_eq rfl)
  have hcalls : ∀ τ ∈ τs, τ.calls = s.visitOf τ.watch.owner (.event τ.watch) := by
    intro τ hτ
    have hsame := hkeep τ hτ
    have hwatched := s.contains_of_mem_ready (mem_ready_of_turns h hτ)
    unfold Turn.calls
    rw [hsame.watches, if_pos hwatched, hsame.visitOf]
  rw [List.flatMap_map]
  exact List.flatMap_congr hcalls

/-- A poll calls what its turns say. It has a result just when the turns come to an end: the number
of watches that were ready. -/
theorem Turns.comes_poll (hpoll : s.CanPoll) (h : Turns (callHook n) s.polled s.ready τs x) :
    ∃ y, (poll (callHook n)).Comes s (τs.flatMap (·.calls)) y ∧
      ((∃ t, x = some (.ok (), t)) → ∃ t, y = some (.ok (.ok s.ready.length), t)) ∧
      ∀ a t, y = some (.ok a, t) → a = .ok s.ready.length ∧ ∃ t, x = some (.ok (), t) := by
  by_cases hready : s.ready = []
  · rw [hready] at h ⊢
    cases h
    refine ⟨_, comes_poll_of_nil hpoll hready, fun _ => ⟨_, rfl⟩, fun a t hy => ?_⟩
    cases hy
    exact ⟨rfl, _, rfl⟩
  · refine ⟨_, .poll hpoll hready h.comes, ?_, ?_⟩
    · rintro ⟨t, rfl⟩
      exact ⟨t, rfl⟩
    · intro a t hy
      obtain ⟨p, rfl, hp⟩ := Option.map_eq_some_iff.1 hy
      obtain ⟨y, u⟩ := p
      cases y with
      | error b => cases hp
      | ok _ =>
        cases hp
        exact ⟨rfl, _, rfl⟩

/-- **Dispatch.** Whatever the hooks do: a poll calls owners of watches that were ready when it
began, in the order of the table and each of them once at most, just where the source is watched and
the owner is live and not busy when the turn comes; and its result is the number of watches that
were ready. If the hooks ask nothing of the engine, each watch leads to the call that would have
been made when the poll began. -/
theorem dispatch (hpoll : s.CanPoll) (n : Nat) : ∃ τs x, s.Dispatches n τs x := by
  obtain ⟨τs, x, h⟩ := exists_turns (callHook n) s.polled s.ready
  obtain ⟨y, ⟨hrun, hvisits⟩, hend, hresult⟩ := h.comes_poll hpoll
  have hreturns (hτs : ∀ τ ∈ τs, τ.Returns (callHook n)) :
      ∃ t, s.run? (poll (callHook n)) = some (.ok (.ok s.ready.length), t) := by
    rw [hrun]
    exact hend (h.exists_end hτs)
  have hall : ∀ a t, s.run? (poll (callHook n)) = some (.ok a, t) →
      a = .ok s.ready.length ∧ τs.map (·.watch) = s.ready := by
    intro a t ht
    rw [hrun] at ht
    obtain ⟨ha, u, hx⟩ := hresult a t ht
    exact ⟨ha, h.watches_eq hx⟩
  refine ⟨τs, x, h, WatchTable.distinct_ready _ _, fun τ _ => visits_deliverEvent n _ _,
    fun τ _ v => Turn.mem_calls, hvisits, ?_, hall, hreturns, h.calls_of_mute, ?_⟩
  · obtain ⟨ws, hsub, hfor⟩ := exists_sublist_calls τs
    exact ⟨ws, hsub.trans h.watches_prefix.sublist, hfor⟩
  · intro hcalm hn
    obtain ⟨m, rfl⟩ := Nat.exists_eq_add_one_of_ne_zero (Nat.pos_iff_ne_zero.1 hn)
    obtain ⟨t, ht⟩ := hreturns fun τ _ => exists_of_deliverEvent (fun c => hcalm c _ _) τ.before m
    have hmute := h.calls_of_mute fun c id w => (hcalm c id w).isMute
    rw [(hall _ t ht).2] at hmute
    exact ⟨hmute, t, ht⟩

end Dispatch

/-! ## A poll that is meddled with -/

/-- Blocks that, when the first descriptor is ready, have the second one unwatched and poll the
others themselves. -/
@[reducible] def meddlers : Kit where
  Factory := Unit
  Contents := Unit
  Remark := Empty
  build := fun _ h => (some (), h)
  hook := fun _ id hook =>
    match hook with
    | .event w => do
      if w.source.fd = 5 then
        Script.ask (.unwatch (.reading id 6))
        discard (Script.ask .poll)
      return {}
    | _ => return {}
  report := fun _ buffer => (0, buffer)
  release := fun _ => id

/-- Two blocks with three descriptors, which are not open, and a socket that is not ready. -/
def restless : Machine meddlers :=
  let row : Keyed BlockId (Entry meddlers) := .empty
  { manager := { (.fresh {} : Manager meddlers) with
      blocks := (row.insert ⟨1⟩
        { serial := 0, type := "meddler", state := .started, contents := some () }).insert ⟨2⟩
        { serial := 1, type := "meddler", state := .started, contents := some () }
      watches := {
        maxFd := 1024
        toList := [.reading ⟨1⟩ 5, .reading ⟨2⟩ 6, ⟨⟨1⟩, ⟨noFd, some "socket"⟩, ⟨true, false⟩⟩,
          .reading ⟨2⟩ 7]
        distinct := by decide
        interested := by decide
        watchable := by
          unfold Source.Watchable
          decide } }
    host := .manual }

/-- Three descriptors are ready; the owner of the second one is not called for it. -/
theorem dispatch_meddle : ∃ t τs x, restless.Dispatches 3 τs x ∧
    restless.run? (poll (callHook 3)) = some (.ok (.ok 3), t) ∧
    τs.flatMap (·.calls) =
      [⟨0, ⟨1⟩, .event (.reading ⟨1⟩ 5)⟩, ⟨1, ⟨2⟩, .event (.reading ⟨2⟩ 7)⟩] := by
  obtain ⟨t, ht, htv⟩ : ∃ t, restless.run? (poll (callHook 3)) = some (.ok (.ok 3), t) ∧
      t.visits [] = [⟨0, ⟨1⟩, .event (.reading ⟨1⟩ 5)⟩, ⟨1, ⟨2⟩, .event (.reading ⟨2⟩ 7)⟩] :=
    ⟨_, rfl, rfl⟩
  have hpoll : restless.CanPoll := by decide
  obtain ⟨τs, x, h⟩ := dispatch hpoll 3
  have hcalls := (h.visits.result ht).2
  rw [show restless.stack = [] from rfl, htv] at hcalls
  exact ⟨t, τs, x, h, ht, hcalls.symm⟩

end BlockFlow
