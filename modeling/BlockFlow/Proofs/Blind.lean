import BlockFlow.Proofs.Moments
import BlockFlow.Proofs.Made
import Mathlib.Data.List.Forall2

/-!
# The record is never read

The engine writes down what happens and never looks at it again, so what it does does not depend on
what was written down before.

1. `Machine.onto`: a machine with earlier events; `Run.Blind`: a run that does the same on it.
2. `Made.blind`, `blind_callHook`: all that the engine does is blind.
3. `Machine.SameBut`, `Blind.sameBut`: what is done after two different notices is the same.
-/

namespace BlockFlow

variable {K : Kit} {α β : Type}

/-- The machine with events before all those of its record. -/
def Machine.onto (s : Machine K) (past : List (Event K)) : Machine K :=
  { s with events := s.events ++ past }

namespace Run

/-- A run that does the same whatever happened before. -/
structure Blind (r : Run K α) : Prop where
  result (s : Machine K) (past : List (Event K)) :
    (s.onto past).run? r = (s.run? r).map fun p => (p.1, p.2.onto past)
  moments (s : Machine K) (past : List (Event K)) :
    r.moments (s.onto past) = (r.moments s).map (·.onto past)

/-! ## The parts of a run -/

theorem blind_pure (a : α) : (pure a : Run K α).Blind := ⟨fun _ _ => rfl, fun _ _ => rfl⟩

theorem blind_throw (b : Breakdown) : (throw b : Run K α).Blind := ⟨fun _ _ => rfl, fun _ _ => rfl⟩

theorem blind_outOfFuel : (outOfFuel : Run K α).Blind := ⟨fun _ _ => rfl, fun _ _ => rfl⟩

theorem Blind.bind {r : Run K α} {f : α → Run K β} (hr : r.Blind) (hf : ∀ a, (f a).Blind) :
    (r >>= f).Blind where
  result s past := by
    rw [run?_bind, run?_bind, hr.result]
    cases s.run? r with
    | none => rfl
    | some p =>
      obtain ⟨x, t⟩ := p
      cases x with
      | ok a => exact (hf a).result t past
      | error b => rfl
  moments s past := by
    rw [moments_bind, moments_bind, hr.moments, hr.result, List.map_append]
    cases s.run? r with
    | none => rfl
    | some p =>
      obtain ⟨x, t⟩ := p
      cases x with
      | ok a => exact congrArg _ ((hf a).moments t past)
      | error b => rfl

theorem Blind.onBreak {r : Run K α} {last : Run K Unit} (hr : r.Blind) (hlast : last.Blind) :
    (r.onBreak last).Blind where
  result s past := by
    rw [run?_onBreak, run?_onBreak, hr.result]
    cases s.run? r with
    | none => rfl
    | some p =>
      obtain ⟨x, t⟩ := p
      cases x with
      | ok a => rfl
      | error b => exact (hlast.bind fun _ => blind_throw b).result t past
  moments s past := by
    rw [moments_onBreak, moments_onBreak, hr.moments, hr.result, List.map_append]
    cases s.run? r with
    | none => rfl
    | some p =>
      obtain ⟨x, t⟩ := p
      cases x with
      | ok a => rfl
      | error b => exact congrArg _ ((hlast.bind fun _ => blind_throw b).moments t past)

/-! ## The steps of the engine -/

theorem blind_pause : (pause : Run K Unit).Blind := ⟨fun _ _ => rfl, fun _ _ => rfl⟩

theorem blind_manager : (manager : Run K (Manager K)).Blind := ⟨fun _ _ => rfl, fun _ _ => rfl⟩

theorem blind_host : (host : Run K Host).Blind := ⟨fun _ _ => rfl, fun _ _ => rfl⟩

theorem blind_onHost (f : Host → α × Host) : (onHost f : Run K α).Blind :=
  ⟨fun _ _ => rfl, fun _ _ => rfl⟩

theorem blind_modifyManager (f : Manager K → Manager K) : (modifyManager f).Blind :=
  ⟨fun _ _ => rfl, fun _ _ => rfl⟩

theorem blind_record (e : Event K) : (record e).Blind := ⟨fun _ _ => rfl, fun _ _ => rfl⟩

theorem blind_commit (e : Event K) (f : Manager K → Manager K) : (commit e f).Blind :=
  ⟨fun _ _ => rfl, fun _ _ => rfl⟩

theorem blind_refuse {ε : Type} (n : Notice) (e : ε) :
    (refuse n e : Run K (Except ε α)).Blind :=
  (blind_record (.notice n)).bind fun _ => blind_pure _

theorem blind_arm (owner : BlockId) (tid : TimerId) (delay : Duration) (arg : Payload) :
    (arm owner tid delay arg : Run K _).Blind := by
  refine blind_manager.bind fun m => ?_
  split
  · refine (blind_onHost _).bind fun now => ?_
    cases now.later? delay with
    | none => exact blind_refuse _ _
    | some expiration =>
      refine (blind_record (.notice _)).bind fun _ => ?_
      exact (blind_commit _ _).bind fun _ => blind_pure _
  · exact blind_refuse _ _

theorem blind_disarm (owner : BlockId) (tid : TimerId) :
    (disarm owner tid : Run K Unit).Blind := by
  refine blind_manager.bind fun m => ?_
  dsimp only [TimerList.remove]
  split
  · exact (blind_record (.notice _)).bind fun _ => blind_modifyManager _
  · exact blind_modifyManager _

theorem blind_watch (w : Watch) : (watch w : Run K _).Blind := by
  refine blind_manager.bind fun m => ?_
  split
  · split
    · exact blind_refuse _ _
    · exact (blind_commit _ _).bind fun _ => (blind_record _).bind fun _ => blind_pure _
  · exact blind_refuse _ _

theorem blind_popThen {now : Instant} {r : Run K α} {f : Timer → Run K α} (hr : r.Blind)
    (hf : ∀ t, (f t).Blind) : (popThen now r f).Blind := by
  refine blind_manager.bind fun m => ?_
  cases m.timers.popExpired now with
  | mk timer timers =>
    cases timer with
    | none => exact hr
    | some t => exact (blind_modifyManager _).bind fun _ => hf t

theorem Made.blind {call : Call K} {r : Run K α} (h : Made call r)
    (hcall : ∀ id hook, (call id hook).Blind) : r.Blind := by
  induction h with
  | pure a => exact blind_pure a
  | throw b => exact blind_throw b
  | outOfFuel => exact blind_outOfFuel
  | bind _ _ ihr ihf => exact ihr.bind ihf
  | manager => exact blind_manager
  | host => exact blind_host
  | record => exact blind_record _
  | onHost | build | release => exact blind_onHost _
  | modifyManager => exact blind_modifyManager _
  | arm owner tid delay arg => exact blind_arm owner tid delay arg
  | disarm owner tid => exact blind_disarm owner tid
  | disarmAll => exact blind_modifyManager _
  | watch w => exact blind_watch w
  | unwatch w => exact (blind_record _).bind fun _ => blind_modifyManager _
  | popThen _ _ ihr ihf => exact blind_popThen ihr ihf
  | call id hook => exact hcall id hook

/-! ## Hooks -/

theorem blind_leave (id : BlockId) (serial : Nat) (c : K.Contents) :
    (leave id serial c).Blind := by
  have hrelease : (release serial c).Blind := (blind_record _).bind fun _ => blind_onHost _
  refine (blind_record _).bind fun _ => ?_
  refine blind_manager.bind fun m => ?_
  split
  · split
    · exact blind_modifyManager _
    · exact hrelease
  · exact hrelease

theorem blind_runScript {call : Call K} (hcall : ∀ id hook, (call id hook).Blind) (n : Nat)
    {S : Type} {leave : S → Run K Unit} (hleave : ∀ c, (leave c).Blind) (c : S)
    (script : Script K.Factory K.Remark S α) : (runScript call n leave c script).Blind := by
  induction script generalizing c with
  | done a => exact blind_pure _
  | keep kept next ih => exact ih kept
  | call r next ih =>
    refine (((made_perform n r).blind hcall).onBreak (hleave c)).bind fun a => ?_
    exact blind_pause.bind fun _ => ih a c

theorem blind_callHook (n : Nat) (id : BlockId) (hook : Hook) :
    (callHook (K := K) n id hook).Blind := by
  induction n generalizing id hook with
  | zero => exact blind_outOfFuel
  | succ n ih =>
    show (enter (callHook n) n id hook).Blind
    unfold enter
    refine blind_manager.bind fun m => ?_
    cases m.blocks.get? id with
    | none => exact blind_pure _
    | some e =>
      dsimp only
      cases e.contents with
      | none => exact (blind_record _).bind fun _ => blind_pure _
      | some c =>
        refine (blind_modifyManager _).bind fun _ => (blind_record _).bind fun _ => ?_
        refine blind_pause.bind fun _ => ?_
        refine (blind_runScript ih n (blind_leave id e.serial) c _).bind fun result => ?_
        exact (blind_leave id e.serial result.2).bind fun _ => blind_pure _

end Run

/-! ## Machines that differ in one notice -/

/-- Two machines that an engine came to from one machine after two different notices: everything is
the same but these. -/
structure Machine.Alike (s : Machine K) (n n' : Notice) (t t' : Machine K) : Prop where
  manager : t.manager = t'.manager
  host : t.host = t'.host
  events : ∃ es, t.events = es ++ .notice n :: s.events ∧ t'.events = es ++ .notice n' :: s.events

/-- Two runs do the same but for the notice that each begins with: they pass through the same
machines, as far as scripts and blocks can tell, and come to the same result. -/
structure Machine.SameBut (s : Machine K) (n n' : Notice) (r r' : Run K α) : Prop where
  result : Option.Rel (fun p p' => p.1 = p'.1 ∧ s.Alike n n' p.2 p'.2) (s.run? r) (s.run? r')
  moments : List.Forall₂ (s.Alike n n') (r.moments s) (r'.moments s)

/-- What is done after two different notices is the same. -/
theorem Run.Blind.sameBut {r : Run K α} (h : r.Blind) (s : Machine K) (n n' : Notice) :
    s.SameBut n n' (notify n >>= fun _ => r) (notify n' >>= fun _ => r) := by
  let u : Machine K := { s with events := [] }
  have hresult := h.result u
  have hmoments := h.moments u
  have halike : ∀ v : Machine K,
      s.Alike n n' (v.onto (.notice n :: s.events)) (v.onto (.notice n' :: s.events)) :=
    fun v => ⟨rfl, rfl, v.events, rfl, rfl⟩
  constructor
  · show Option.Rel _ ((u.onto (.notice n :: s.events)).run? r)
      ((u.onto (.notice n' :: s.events)).run? r)
    rw [hresult, hresult]
    cases u.run? r with
    | none => exact .none
    | some p => exact .some ⟨rfl, halike p.2⟩
  · show List.Forall₂ _ (r.moments (u.onto (.notice n :: s.events)))
      (r.moments (u.onto (.notice n' :: s.events)))
    rw [hmoments, hmoments]
    induction r.moments u with
    | nil => exact .nil
    | cons v vs ih => exact .cons (halike v) ih

end BlockFlow
