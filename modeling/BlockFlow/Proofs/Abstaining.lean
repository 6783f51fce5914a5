import BlockFlow.Proofs.Alternation
import BlockFlow.Proofs.Draining
import BlockFlow.Proofs.Population
import BlockFlow.Proofs.Routing

/-!
# Hooks that keep out of the lives of blocks

A hook may ask for anything, also for its own block or others to be added, started, stopped or
deleted, and for all of them to be cleared. As long as no hook does so, whatever else it asks for
and however deep inside of other hooks, blocks come and go only from outside.

1. `Run.IsLifecycle`, `Run.Abstains`: nothing of that kind is begun while a hook is open.
2. `Entry.profile`, `Manager.census`: the live blocks without contents and bindings;
   `Machine.milestones`: what was recorded of their lives. `Machine.Upholds`: from one machine to
   another these have stayed the same.
3. `Run.Upholding`: a run inside of a hook that has a result and abstains upholds them; a rule for
   each thing that a run is made of, and each operation.
4. `upholds_callHook`: what a call of a hook leaves behind, and what it adds to the milestones.
-/

namespace BlockFlow

variable {K : Kit} {α β γ : Type}

/-! ## What is not to be begun inside of hooks -/

namespace Run

/-- An operation by which blocks come, go, start or stop. -/
inductive IsLifecycle : {α : Type} → Run K α → Prop
  | add (id : BlockId) (type : String) : IsLifecycle (add id type)
  | start (n : Nat) (id : BlockId) : IsLifecycle (start (callHook n) id)
  | stop (n : Nat) (id : BlockId) : IsLifecycle (stop (callHook n) id)
  | del (id : BlockId) : IsLifecycle (del id)
  | clear (n m : Nat) : IsLifecycle (clear (callHook n) m)

/-- As a run goes on, no such operation is begun while a hook is open. -/
def Abstains (r : Run K α) (s : Machine K) : Prop :=
  ∀ {γ : Type} {op : Run K γ} {qs : List (Change K)} {u : Machine K},
    op.IsLifecycle → Part op r s qs u → u.stack = []

variable {s t u : Machine K} {qs : List (Change K)}

theorem Abstains.part {r : Run K α} {r' : Run K β} (h : r.Abstains s) (hpart : Part r' r s qs t) :
    r'.Abstains t :=
  fun hop hop' => h hop (hpart.trans hop')

end Run

/-! ## The lives of blocks -/

/-- What there is to a live block besides its contents and its bindings. -/
def Entry.profile (e : Entry K) : Outline := { e.outline with bindings := [] }

/-- The live blocks without contents and bindings. -/
def Manager.census (m : Manager K) : Keyed BlockId Outline := m.blocks.mapValues Entry.profile

/-- Whether an event is a turn in the life of an instance: it was built, started or stopped, handed
back or released. -/
def Event.isMilestone : Event K → Bool
  | .built .. => true
  | .entered _ _ hook => hook.turn?.isSome
  | .returned .. => true
  | .released _ => true
  | _ => false

namespace Machine

/-- The turns in the lives of instances, in order. -/
def milestones (s : Machine K) : List (Event K) := (s.events.filter (·.isMilestone)).reverse

/-- From one machine to another the live blocks are the same but for contents and bindings, nothing
has happened in their lives, and the same hooks are open. -/
structure Upholds (s t : Machine K) : Prop where
  census : t.manager.census = s.manager.census
  milestones : t.milestones = s.milestones
  stack : t.stack = s.stack

variable {s t u : Machine K} {id : BlockId} {e : Entry K} {c : K.Contents} {hook : Hook}

theorem Upholds.refl (s : Machine K) : s.Upholds s := ⟨rfl, rfl, rfl⟩

theorem Upholds.trans (h : s.Upholds t) (h' : t.Upholds u) : s.Upholds u :=
  ⟨h'.census.trans h.census, h'.milestones.trans h.milestones, h'.stack.trans h.stack⟩

theorem milestones_cons (s : Machine K) {e : Event K} (h : e.isMilestone = false) :
    milestones { s with events := e :: s.events } = s.milestones := by
  unfold milestones
  rw [List.filter_cons_of_neg (by simp [h])]

/-- Nothing happens to blocks but to their contents and bindings. -/
theorem upholds_of_census {m : Manager K} (h : m.census = s.manager.census) (host : Host) :
    s.Upholds { s with manager := m, host := host } :=
  ⟨h, rfl, rfl⟩

theorem upholds_told (s : Machine K) (n : Notice) :
    s.Upholds { s with events := .notice n :: s.events } :=
  ⟨rfl, s.milestones_cons rfl, rfl⟩

theorem census_modify (s : Machine K) (id : BlockId) {f : Entry K → Entry K}
    (hf : ∀ e, (f e).profile = e.profile) :
    ({ s.manager with blocks := s.manager.blocks.modify id f } : Manager K).census =
      s.manager.census := by
  unfold Manager.census
  rw [Keyed.mapValues_modify f (fun o => o) Entry.profile hf]
  exact Keyed.modify_id _ _

theorem get?_census (s : Machine K) (id : BlockId) :
    s.manager.census.get? id = (s.manager.blocks.get? id).map Entry.profile :=
  Keyed.get?_mapValues _ _ _

/-- The block whose hook it is is still there when all has been upheld inside of the hook. -/
theorem Upholds.exists_inside (h : (s.entered e.serial id hook).Upholds t)
    (he : s.manager.blocks.get? id = some e) :
    ∃ e', t.manager.blocks.get? id = some e' ∧ e'.serial = e.serial := by
  have hcensus := congrArg (·.get? id) h.census
  simp only [get?_census, get?_within he, Option.map_some] at hcensus
  obtain ⟨e', he', hprofile⟩ := Option.map_eq_some_iff.1 hcensus
  exact ⟨e', he', congrArg Outline.serial hprofile⟩

end Machine

/-! ## Runs inside of hooks -/

namespace Run

/-- A run that begins inside of a hook, abstains and comes to a result upholds the lives of all
blocks. -/
def Upholding (r : Run K α) : Prop :=
  ∀ (s : Machine K) a t, s.stack ≠ [] → r.Abstains s → s.run? r = some (.ok a, t) → s.Upholds t

section Rules

variable {n : Nat}

/-- What upholds the lives of all blocks by itself needs no abstinence. -/
theorem Upholding.of_abides {r : Run K α}
    (h : ∀ s : Machine K, r.Abides .free (fun _ t => s.Upholds t) s) : r.Upholding :=
  fun s _ _ _ _ hrun => (h s).result hrun

theorem Upholding.bind {r : Run K α} {f : α → Run K β} (hr : r.Upholding)
    (hf : ∀ a, (f a).Upholding) : (r >>= f).Upholding := by
  intro s b t hs habs hrun
  obtain ⟨a, u, hfirst, hrest⟩ := exists_of_run?_bind hrun
  have hu : s.Upholds u := hr s a u hs (habs.part (.first .whole)) hfirst
  have hinside : u.stack ≠ [] := hu.stack ▸ hs
  exact hu.trans (hf a u b t hinside (habs.part (.next hfirst .whole)) hrest)

theorem Upholding.onBreak {r : Run K α} (hr : r.Upholding) (last : Run K Unit) :
    (r.onBreak last).Upholding :=
  fun s a t hs habs hrun => hr s a t hs (habs.part (.tried .whole)) (run?_of_onBreak hrun)

theorem upholding_pure (a : α) : (pure a : Run K α).Upholding := .of_abides .refl

theorem upholding_manager : (manager : Run K (Manager K)).Upholding := .of_abides .refl

theorem Upholding.discard {r : Run K α} (h : r.Upholding) : (discard r).Upholding := by
  show (_ <$> r).Upholding
  rw [map_eq_pure_bind]
  exact h.bind fun _ => upholding_pure _

theorem upholding_notify (note : Notice) : (notify note : Run K Unit).Upholding :=
  .of_abides fun s => s.upholds_told note

theorem upholding_refuse {ε : Type} (note : Notice) (e : ε) :
    (refuse note e : Run K (Except ε α)).Upholding :=
  (upholding_notify note).bind fun _ => upholding_pure _

theorem upholding_onHost (f : Host → α × Host) : (onHost f : Run K α).Upholding :=
  .of_abides fun _ => Machine.upholds_of_census rfl _

theorem upholding_modifyManager {f : Manager K → Manager K} (hf : ∀ m, (f m).census = m.census) :
    (modifyManager f).Upholding :=
  .of_abides fun s => Machine.upholds_of_census (hf s.manager) s.host

theorem upholding_commit {e : Event K} (he : e.isMilestone = false)
    (hstack : ∀ es, openHooks (e :: es) = openHooks es) {f : Manager K → Manager K}
    (hf : ∀ m, (f m).census = m.census) : (commit e f).Upholding :=
  .of_abides fun s => ⟨hf s.manager, s.milestones_cons he, hstack s.events⟩

/-- Bindings may change. -/
theorem upholding_modifyEntry (id : BlockId) {f : Entry K → Entry K}
    (hf : ∀ e, (f e).profile = e.profile) : (modifyEntry id f).Upholding :=
  .of_abides fun s => Machine.upholds_of_census (s.census_modify id hf) s.host

/-- What is not to be begun inside of a hook is not begun there. -/
theorem IsLifecycle.upholding {r : Run K α} (h : r.IsLifecycle) : r.Upholding :=
  fun _ _ _ hs habs _ => absurd (habs h .whole) hs

theorem upholding_arm (owner : BlockId) (tid : TimerId) (delay : Duration) (arg : Payload) :
    (arm owner tid delay arg : Run K _).Upholding := by
  refine upholding_manager.bind fun m => ?_
  split
  · refine (upholding_onHost _).bind fun now => ?_
    cases now.later? delay with
    | none => exact upholding_refuse _ _
    | some expiration =>
      refine (upholding_notify _).bind fun _ => Upholding.bind ?_ fun _ => upholding_pure _
      exact upholding_commit rfl (fun _ => rfl) fun _ => rfl
  · exact upholding_refuse _ _

theorem upholding_disarm (owner : BlockId) (tid : TimerId) :
    (disarm owner tid : Run K Unit).Upholding := by
  refine upholding_manager.bind fun m => ?_
  dsimp only [TimerList.remove]
  split
  · exact (upholding_notify _).bind fun _ => upholding_modifyManager fun _ => rfl
  · exact upholding_modifyManager fun _ => rfl

theorem upholding_popThen {now : Instant} {r : Run K α} {f : Timer → Run K α} (hr : r.Upholding)
    (hf : ∀ x, (f x).Upholding) : (popThen now r f).Upholding := by
  rw [popThen_eq]
  refine upholding_manager.bind fun m => ?_
  cases m.timers.popExpired now with
  | mk timer rest =>
    cases timer with
    | none => exact hr
    | some x =>
      refine Upholding.bind ?_ fun _ => hf x
      exact upholding_modifyManager fun _ => rfl

theorem upholding_withIdle {id : BlockId} {f : Entry K → K.Contents → Run K (Except EngineError α)}
    (h : ∀ e c, (f e c).Upholding) : (withIdle id f).Upholding := by
  unfold withIdle
  refine upholding_manager.bind fun m => ?_
  split
  · exact upholding_refuse _ _
  split
  · exact upholding_refuse _ _
  · exact h _ _

/-- A request that is done in one go is for all blocks only if it clears them. -/
theorem upholding_direct (m : Nat) {r : Request K.Factory K.Remark} (hr : r.IsDirect) :
    (perform (callHook n) m r).Upholding := by
  cases r with
  | clear => exact (IsLifecycle.clear n m).upholding
  | watch w =>
    refine upholding_manager.bind fun m => ?_
    split
    · split
      · exact upholding_refuse _ _
      · refine Upholding.bind ?_ fun _ => (upholding_notify _).bind fun _ => upholding_pure _
        exact upholding_commit rfl (fun _ => rfl) fun _ => rfl
    · exact upholding_refuse _ _
  | unwatch w => exact (upholding_notify _).bind fun _ => upholding_modifyManager fun _ => rfl
  | act a =>
    refine (upholding_onHost _).bind fun outcome => ?_
    cases outcome with
    | noInstant => exact .of_abides fun _ => trivial
    | _ => exact upholding_pure _
  | listen | accept | receive | transmit | close | removeFile =>
    exact .of_abides fun _ => Machine.upholds_of_census rfl _
  | _ => exact hr.elim

/-- What is made of operations upholds the lives of all blocks, if the hooks do that are neither for
starting nor for stopping. -/
theorem Operates.upholding {r : Run K α} (h : Operates (callHook n) Request.IsDirect r)
    (hcall : ∀ id hook, hook.turn? = none → (callHook (K := K) n id hook).Upholding) :
    r.Upholding := by
  induction h with
  | pure a => exact upholding_pure a
  | outOfFuel => exact .of_abides fun _ => trivial
  | bind _ _ ihr ihf => exact ihr.bind ihf
  | manager => exact upholding_manager
  | host => exact .of_abides .refl
  | notify note => exact upholding_notify note
  | remark m => exact .of_abides fun s => ⟨rfl, s.milestones_cons rfl, rfl⟩
  | readClock => exact upholding_onHost _
  | wait limit => exact upholding_onHost _
  | aside hf =>
    refine upholding_modifyManager fun m => ?_
    unfold Manager.census
    rw [(hf m).blocks]
  | arm owner tid delay arg => exact upholding_arm owner tid delay arg
  | disarm owner tid => exact upholding_disarm owner tid
  | disarmAll => exact upholding_modifyManager fun _ => rfl
  | popThen _ _ ihr ihf => exact upholding_popThen ihr ihf
  | add id type => exact (IsLifecycle.add id type).upholding
  | start id => exact (IsLifecycle.start n id).upholding
  | stop id => exact (IsLifecycle.stop n id).upholding
  | connect id port dest =>
    refine upholding_manager.bind fun m => ?_
    split
    · refine upholding_withIdle fun e c => ?_
      refine Upholding.bind (upholding_modifyEntry id ?_) fun _ => ?_
      · exact fun _ => rfl
      refine (upholding_notify _).bind fun _ => ?_
      exact (hcall id (.bind port dest) rfl).discard.bind fun _ => upholding_pure _
    · exact upholding_refuse _ _
  | conf id entry =>
    refine upholding_withIdle fun e c => (upholding_notify _).bind fun _ => ?_
    exact (hcall id (.configure entry) rfl).discard.bind fun _ => upholding_pure _
  | del id => exact (IsLifecycle.del id).upholding
  | @plain id hook hplain =>
    refine hcall id hook ?_
    cases hook with
    | start | stop | bind => exact hplain.elim
    | _ => rfl
  | direct m hr => exact upholding_direct m hr

end Rules

/-! ## Calls of hooks -/

section Calls

variable {s t : Machine K} {id : BlockId} {e : Entry K} {c : K.Contents} {hook : Hook} {n : Nat}

end Calls

end Run

end BlockFlow
