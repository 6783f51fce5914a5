import BlockFlow.Proofs.History
import BlockFlow.Proofs.Orderly
import Mathlib.Data.List.Nodup

/-!
# How instances leave

An instance is built once, and what becomes of it when it is no longer live is decided by the change
by which it leaves: a block that is deleted goes to a factory with the very next change, one that is
dropped by force goes nowhere.

1. `Machine.IsLive`, `Machine.handles`: live instances, and the handles to an instance.
2. `Machine.Keeps`: changes by which no instance leaves or is handed to a factory; `Machine.Yields`,
   `Machine.Forces`: those by which one leaves.
3. `Dealing`: changes one after the other, each of one of these kinds.
4. `Run.Deals`: the changes of a run are a dealing; `Operates.deals`, `deals_callHook`,
   `Errand.deals`: so are those of all that the engine does.
-/

namespace BlockFlow

open Run

variable {K : Kit} {α β : Type}

/-! ## Live instances -/

namespace Machine

/-- Whether an instance is live under some number. -/
def IsLive (s : Machine K) (serial : Nat) : Prop :=
  ∃ id e, s.manager.blocks.get? id = some e ∧ e.serial = serial

/-- The number of handles to an instance: each entry of a live block has one, and each hook that is
open has one to the instance whose hook it is. -/
def handles (s : Machine K) (serial : Nat) : Nat :=
  (s.manager.blocks.values.map (·.serial)).count serial + s.inside.count serial

theorem IsLive.of_less {s t : Machine K} {serial : Nat} (h : t.IsLive serial)
    (hless : ∀ {id e}, t.manager.blocks.get? id = some e → s.manager.blocks.get? id = some e) :
    s.IsLive serial := by
  obtain ⟨id, e, he, hserial⟩ := h
  exact ⟨id, e, hless he, hserial⟩

theorem IsLive.of_without {s : Machine K} {id : BlockId} {serial : Nat}
    (h : (s.without id).IsLive serial) : s.IsLive serial :=
  h.of_less fun he => (Keyed.of_get?_erase he).2

namespace Orderly

variable {s : Machine K} {id : BlockId} {e : Entry K}

/-- No other live block is the same instance. -/
theorem not_isLive_without (h : s.Orderly) (he : s.manager.blocks.get? id = some e) :
    ¬ (s.without id).IsLive e.serial := by
  rintro ⟨id', e', he', hserial⟩
  obtain ⟨hne, he'⟩ := Keyed.of_get?_erase he'
  exact hne (h.apart he' he hserial)

/-- Live blocks are different instances, so their numbers are. -/
theorem nodup_serials (h : s.Orderly) : (s.manager.blocks.values.map (·.serial)).Nodup := by
  rw [Keyed.values, List.map_map, List.Nodup, List.pairwise_map]
  refine s.manager.blocks.ascending.imp_of_mem fun {p q} hp hq hlt heq => ?_
  have hid : p.1 = q.1 := h.apart (Keyed.get?_eq_some_iff.2 hp) (Keyed.get?_eq_some_iff.2 hq) heq
  exact KeyOrder.irrefl q.1 (hid ▸ hlt)

/-- There is one handle to a block that is not inside of a hook: that of its entry. -/
theorem handles_eq_one (h : s.Orderly) (he : s.manager.blocks.get? id = some e)
    (hc : e.contents ≠ none) : s.handles e.serial = 1 := by
  have hout : e.serial ∉ s.inside := fun hin => hc ((h.busy_iff he).2 hin)
  have hmem : e.serial ∈ s.manager.blocks.values.map (·.serial) := by
    rw [Keyed.values, List.map_map]
    exact List.mem_map.2 ⟨(id, e), Keyed.get?_eq_some_iff.1 he, rfl⟩
  rw [handles, List.count_eq_zero_of_not_mem hout, List.count_eq_one_of_mem h.nodup_serials hmem]

end Orderly

end Machine

/-! ## Changes -/

/-- Whether an event is that an instance was handed to a factory. -/
def Event.isReturn : Event K → Bool
  | .returned .. => true
  | _ => false

/-- By a change an instance is handed to a factory, from under a type. -/
def Returns (serial : Nat) (type : String) (factory : K.Factory) (q : Change K) : Prop :=
  q.2.events = .returned serial type factory :: q.1.events

namespace Machine

/-- From one machine to another no instance leaves or is handed to a factory, and what comes was
never there before. -/
structure Keeps (s u : Machine K) : Prop where
  stays {n : Nat} (h : s.IsLive n) : u.IsLive n
  comes {n : Nat} (h : u.IsLive n) : s.IsLive n ∨ s.manager.built ≤ n ∧ n < u.manager.built
  built : s.manager.built ≤ u.manager.built
  silent {n : Nat} {type : String} {factory : K.Factory} : ¬ Returns n type factory (s, u)

/-- A block is about to be deleted: it is stopped and inside of no hook, its type has a factory, and
nothing but its entry has a handle to it. -/
structure Yields (s : Machine K) (id : BlockId) (e : Entry K) (factory : K.Factory) : Prop where
  live : s.manager.blocks.get? id = some e
  idle : e.contents ≠ none
  stopped : e.state = .stopped
  factory : s.manager.factories.get? e.type = some factory
  sole : s.handles e.serial = 1
  told : s.events.head? = some (.notice (.deleted id))
  gone : ¬ (s.without id).IsLive e.serial

/-- A block is about to be dropped by force. -/
structure Forces (s : Machine K) (id : BlockId) (e : Entry K) : Prop where
  live : s.manager.blocks.get? id = some e
  told : s.events.head? = some (.notice (.forced id))
  gone : ¬ (s.without id).IsLive e.serial

def handed (s : Machine K) (e : Entry K) (factory : K.Factory) : Machine K :=
  { s with events := .returned e.serial e.type factory :: s.events }

end Machine

/-- Changes that follow one after the other. A block that is deleted goes to the factory of its type
with the change that comes next. -/
inductive Dealing : Machine K → List (Change K) → Machine K → Prop
  | nil {s : Machine K} : Dealing s [] s
  | keep {s u t : Machine K} {qs : List (Change K)} (h : s.Keeps u) (hrest : Dealing u qs t) :
    Dealing s ((s, u) :: qs) t
  | hand {s t : Machine K} {qs : List (Change K)} {id : BlockId} {e : Entry K}
    {factory : K.Factory} (h : s.Yields id e factory)
    (hrest : Dealing ((s.without id).handed e factory) qs t) :
    Dealing s ((s, s.without id) :: (s.without id, (s.without id).handed e factory) :: qs) t
  | force {s t : Machine K} {qs : List (Change K)} {id : BlockId} {e : Entry K}
    (h : s.Forces id e) (hrest : Dealing (s.without id) qs t) :
    Dealing s ((s, s.without id) :: qs) t

namespace Dealing

variable {s t u : Machine K} {ps qs : List (Change K)}

theorem append (h : Dealing s ps u) (h' : Dealing u qs t) : Dealing s (ps ++ qs) t := by
  induction h with
  | nil => exact h'
  | keep h _ ih => exact .keep h (ih h')
  | hand h _ ih => exact .hand h (ih h')
  | force h _ ih => exact .force h (ih h')

theorem path (h : Dealing s qs t) : Path s qs t := by
  induction h with
  | nil => exact .nil
  | keep _ _ ih => exact .cons ih
  | hand _ _ ih => exact .cons (.cons ih)
  | force _ _ ih => exact .cons ih

end Dealing

/-- Changes lead to one machine only. -/
theorem Path.unique {s t u : Machine K} {qs : List (Change K)} (h : Path s qs t)
    (h' : Path s qs u) : t = u := by
  induction h with
  | nil =>
    cases h'
    rfl
  | cons _ ih =>
    cases h' with
    | cons h' => exact ih h'

/-! ## Changes by which nothing leaves -/

namespace Machine

variable {s u : Machine K}

/-- Live blocks stay as they are, and no instance is handed to a factory. -/
theorem keeps_of_same (hblocks : u.manager.blocks = s.manager.blocks)
    (hbuilt : u.manager.built = s.manager.built)
    (hsilent : ∀ {n type factory}, ¬ Returns n type factory (s, u)) : s.Keeps u where
  stays := fun ⟨id, e, he, hserial⟩ => ⟨id, e, hblocks ▸ he, hserial⟩
  comes := fun ⟨id, e, he, hserial⟩ => .inl ⟨id, e, hblocks ▸ he, hserial⟩
  built := Nat.le_of_eq hbuilt.symm
  silent := hsilent

/-- No instance is handed to a factory when nothing is recorded. -/
theorem not_returns_of_events_eq {n : Nat} {type : String} {factory : K.Factory}
    (h : u.events = s.events) : ¬ Returns n type factory (s, u) := fun hr =>
  (List.cons_ne_self _ _) (hr.symm.trans h)

theorem keeps_commit {m : Manager K} (h : s.manager.SameBlocks m) {e : Event K}
    (he : e.isReturn = false) : s.Keeps { s with manager := m, events := e :: s.events } :=
  keeps_of_same h.blocks h.built fun hr => by
    rw [(List.cons.inj hr).1] at he
    cases he

theorem keeps_record (s : Machine K) {e : Event K} (he : e.isReturn = false) :
    s.Keeps { s with events := e :: s.events } :=
  keeps_commit ⟨rfl, rfl, rfl⟩ he

theorem keeps_notice (s : Machine K) (n : Notice) :
    s.Keeps { s with events := .notice n :: s.events } :=
  keeps_record s rfl

theorem keeps_host (s : Machine K) (h : Host) : s.Keeps { s with host := h } :=
  keeps_of_same rfl rfl (not_returns_of_events_eq rfl)

theorem keeps_aside {m : Manager K} (h : s.manager.SameBlocks m) :
    s.Keeps { s with manager := m } :=
  keeps_of_same h.blocks h.built (not_returns_of_events_eq rfl)

theorem keeps_modifyEntry (s : Machine K) (id : BlockId) {f : Entry K → Entry K}
    (hf : ∀ e, (f e).serial = e.serial) :
    s.Keeps { s with manager.blocks := s.manager.blocks.modify id f } where
  stays := by
    rintro n ⟨id', e, he, rfl⟩
    by_cases hid : id = id'
    · refine ⟨id', f e, ?_, hf e⟩
      simp [Keyed.get?_modify, hid, he]
    · exact ⟨id', e, by simp [Keyed.get?_modify, hid, he], rfl⟩
  comes := by
    rintro n ⟨id', e, he, rfl⟩
    rcases Keyed.of_get?_modify he with ⟨-, e', he', rfl⟩ | ⟨-, he'⟩
    · exact .inl ⟨id, e', he', (hf e').symm⟩
    · exact .inl ⟨id', e, he', rfl⟩
  built := Nat.le_refl _
  silent := not_returns_of_events_eq rfl

theorem keeps_insert {id : BlockId} {e : Entry K} (hnew : s.manager.blocks.get? id = none)
    (he : e.serial = s.manager.built) :
    s.Keeps { s with
      manager.blocks := s.manager.blocks.insert id e
      manager.built := s.manager.built + 1 } where
  stays := by
    rintro n ⟨id', e', he', rfl⟩
    have hne : id ≠ id' := by
      rintro rfl
      rw [hnew] at he'
      cases he'
    exact ⟨id', e', by simp [Keyed.get?_insert, hne, he'], rfl⟩
  comes := by
    rintro n ⟨id', e', he', rfl⟩
    rcases Keyed.of_get?_insert he' with ⟨-, rfl⟩ | ⟨-, he'⟩
    · exact .inr ⟨Nat.le_of_eq he.symm, he ▸ Nat.lt_succ_self _⟩
    · exact .inl ⟨id', e', he', rfl⟩
  built := Nat.le_succ _
  silent := not_returns_of_events_eq rfl

/-- There is nobody to leave under a number that no live block has. -/
theorem keeps_without {id : BlockId} (hnone : s.manager.blocks.get? id = none) :
    s.Keeps (s.without id) :=
  keeps_of_same (Keyed.erase_of_get?_eq_none hnone) rfl (not_returns_of_events_eq rfl)

theorem Orderly.yields {s : Machine K} (h : s.Orderly) {id : BlockId} {e : Entry K}
    {factory : K.Factory} (he : s.manager.blocks.get? id = some e) (hc : e.contents ≠ none)
    (hst : e.state = .stopped) (hfac : s.manager.factories.get? e.type = some factory)
    (htold : s.events.head? = some (.notice (.deleted id))) : s.Yields id e factory :=
  ⟨he, hc, hst, hfac, h.handles_eq_one he hc, htold, h.not_isLive_without he⟩

theorem Orderly.notice {s : Machine K} (h : s.Orderly) (n : Notice) :
    Orderly { s with events := .notice n :: s.events } := h.step (.notice s n)

end Machine

namespace Run

/-! ## Runs whose changes are a dealing -/

/-- The changes of a run that begins with a machine are a dealing. -/
def DealsFrom (r : Run K α) (s : Machine K) : Prop := ∃ t, Dealing s (r.changes s) t

variable {s t u : Machine K}

theorem changes_manager {f : Manager K → Run K α} {s : Machine K} :
    (manager >>= f).changes s = (f s.manager).changes s := rfl

theorem changes_bind {r : Run K α} {f : α → Run K β} :
    (r >>= f).changes s =
      r.changes s ++ match s.run? r with
        | some (.ok a, t) => (f a).changes t
        | _ => [] := by
  show (r.andThen f).changes s = _
  induction r generalizing s with
  | done a => rfl
  | broken b => rfl
  | exhausted => rfl
  | look next ih => exact ih _
  | put t next ih => exact congrArg _ ih
  | moment next ih => exact ih

theorem changes_onBreak {r : Run K α} {last : Run K Unit} :
    (r.onBreak last).changes s =
      r.changes s ++ match s.run? r with
        | some (.error b, t) => (last >>= fun _ => (throw b : Run K α)).changes t
        | _ => [] := by
  show (r.rescue _).changes s = _
  induction r generalizing s with
  | done a => rfl
  | broken b => rfl
  | exhausted => rfl
  | look next ih => exact ih _
  | put t next ih => exact congrArg _ ih
  | moment next ih => exact ih

/-- Only a run that does not break off itself has a result when something is done at its break. -/
theorem run?_of_onBreak {r : Run K α} {last : Run K Unit} {a : α}
    (h : s.run? (r.onBreak last) = some (.ok a, t)) : s.run? r = some (.ok a, t) := by
  rw [run?_onBreak] at h
  split at h
  · next b u _ =>
    have hend : (last >>= fun _ => (throw b : Run K α)).Abides .free (fun _ _ => False) u := by
      rw [abides_bind]
      exact abides_free fun _ _ => trivial
    exact absurd (hend.result h) id
  · exact h

theorem dealsFrom_pure (a : α) : (pure a : Run K α).DealsFrom s := ⟨s, .nil⟩

theorem dealsFrom_throw (b : Breakdown) : (throw b : Run K α).DealsFrom s := ⟨s, .nil⟩

theorem dealsFrom_outOfFuel : (outOfFuel : Run K α).DealsFrom s := ⟨s, .nil⟩

theorem DealsFrom.bind {r : Run K α} {f : α → Run K β} (hr : r.DealsFrom s)
    (hf : ∀ a t, s.run? r = some (.ok a, t) → (f a).DealsFrom t) : (r >>= f).DealsFrom s := by
  obtain ⟨t, hr⟩ := hr
  unfold DealsFrom
  rw [changes_bind]
  split
  · next a u hrun =>
    obtain rfl : t = u := hr.path.unique (path_changes hrun)
    obtain ⟨v, hf⟩ := hf a t hrun
    exact ⟨v, hr.append hf⟩
  · exact ⟨t, by rwa [List.append_nil]⟩

theorem DealsFrom.discard {r : Run K α} (h : r.DealsFrom s) : (discard r).DealsFrom s := by
  show (_ <$> r).DealsFrom s
  rw [map_eq_pure_bind]
  exact h.bind fun _ _ _ => dealsFrom_pure _

theorem DealsFrom.onBreak {r : Run K α} {last : Run K Unit} (hr : r.DealsFrom s)
    (hlast : ∀ b t, s.run? r = some (.error b, t) → last.DealsFrom t) :
    (r.onBreak last).DealsFrom s := by
  obtain ⟨t, hr⟩ := hr
  unfold DealsFrom
  rw [changes_onBreak]
  split
  · next b u hrun =>
    obtain rfl : t = u := hr.path.unique (path_changes hrun)
    have hthrow : (last >>= fun _ => (throw b : Run K α)).DealsFrom t :=
      (hlast b t hrun).bind fun _ u _ => dealsFrom_throw b
    obtain ⟨v, hlast⟩ := hthrow
    exact ⟨v, hr.append hlast⟩
  · exact ⟨t, by rwa [List.append_nil]⟩

/-! ## Single changes -/

section Single

variable {f : Unit → Run K β}

theorem dealsFrom_record_bind {e : Event K} (he : e.isReturn = false)
    (h : (f ()).DealsFrom { s with events := e :: s.events }) : (record e >>= f).DealsFrom s := by
  obtain ⟨t, h⟩ := h
  exact ⟨t, .keep (s.keeps_record he) h⟩

theorem dealsFrom_notify_bind {n : Notice}
    (h : (f ()).DealsFrom { s with events := .notice n :: s.events }) :
    (notify n >>= f).DealsFrom s :=
  dealsFrom_record_bind rfl h

theorem dealsFrom_modifyEntry_bind {id : BlockId} {g : Entry K → Entry K}
    (hg : ∀ e, (g e).serial = e.serial)
    (h : (f ()).DealsFrom { s with manager.blocks := s.manager.blocks.modify id g }) :
    (modifyEntry id g >>= f).DealsFrom s := by
  obtain ⟨t, h⟩ := h
  exact ⟨t, .keep (s.keeps_modifyEntry id hg) h⟩

theorem dealsFrom_manager_bind {f : Manager K → Run K β} :
    (manager >>= f).DealsFrom s ↔ (f s.manager).DealsFrom s := Iff.rfl

theorem dealsFrom_notify (n : Notice) : (notify n : Run K Unit).DealsFrom s :=
  ⟨_, .keep (s.keeps_notice n) .nil⟩

theorem dealsFrom_refuse {ε : Type} (n : Notice) (e : ε) :
    (refuse n e : Run K (Except ε α)).DealsFrom s :=
  dealsFrom_notify_bind (dealsFrom_pure _)

theorem dealsFrom_onHost (g : Host → α × Host) : (onHost g : Run K α).DealsFrom s :=
  ⟨_, .keep (s.keeps_host _) .nil⟩

theorem dealsFrom_modifyManager {g : Manager K → Manager K}
    (h : ∀ m : Manager K, m.SameBlocks (g m)) : (modifyManager g).DealsFrom s :=
  ⟨_, .keep (Machine.keeps_aside (h s.manager)) .nil⟩

theorem dealsFrom_commit {e : Event K} (he : e.isReturn = false) {g : Manager K → Manager K}
    (h : ∀ m : Manager K, m.SameBlocks (g m)) : (commit e g).DealsFrom s :=
  ⟨_, .keep (Machine.keeps_commit (h s.manager) he) .nil⟩

theorem dealsFrom_release (serial : Nat) (c : K.Contents) : (release serial c).DealsFrom s :=
  dealsFrom_record_bind rfl (dealsFrom_onHost _)

end Single

theorem dealsFrom_erase_bind {id : BlockId} {f : Unit → Run K β}
    (hd : Dealing s [(s, s.without id)] (s.without id)) (h : (f ()).DealsFrom (s.without id)) :
    (erase id >>= f).DealsFrom s := by
  obtain ⟨t, h⟩ := h
  exact ⟨t, hd.append h⟩

theorem Conducts.orderly {r : Run K α} (hr : r.Conducts) (h : s.Orderly) {x : Except Breakdown α}
    (hrun : s.run? r = some (x, t)) : t.Orderly :=
  (Abides.after (hr s) hrun).1.preserve (fun _ _ => Machine.Orderly.step) h

end Run

/-- The changes of each call of a hook are a dealing. For a hook about which the engine has noted
something, the machine before the note counts. -/
structure Call.Deals (call : Call K) : Prop where
  plain {s : Machine K} {id : BlockId} {hook : Hook} (h : hook.IsPlain) (ho : s.Orderly) :
    (call id hook).DealsFrom s
  marked {s : Machine K} {id : BlockId} {e : Entry K} {hook : Hook} (ho : s.Orderly)
    (he : s.manager.blocks.get? id = some e) (hc : e.contents ≠ none)
    (hadm : e.Admits s.manager hook) : (call id hook).DealsFrom (s.marked id hook)

namespace Run

variable {s t u : Machine K}

/-! ## Operations on blocks -/

theorem dealsFrom_add (id : BlockId) (type : String) : (add id type : Run K _).DealsFrom s := by
  unfold add
  rw [dealsFrom_manager_bind]
  split
  · exact dealsFrom_refuse _ _
  split
  · exact dealsFrom_refuse _ _
  next hnew =>
  cases s.manager.factories.get? type with
  | none => exact dealsFrom_refuse _ _
  | some factory =>
    refine (dealsFrom_onHost _).bind fun made t hrun => ?_
    cases hrun
    cases (K.build factory s.host).1 with
    | none => exact dealsFrom_refuse _ _
    | some c =>
      have hnew' : s.manager.blocks.get? id = none := by simpa [Keyed.contains] using hnew
      refine dealsFrom_record_bind rfl (dealsFrom_notify_bind ?_)
      exact ⟨_, .keep (Machine.keeps_insert hnew' rfl) .nil⟩

theorem dealsFrom_withIdle {id : BlockId} {f : Entry K → K.Contents → Run K (Except EngineError α)}
    (h : ∀ e c, s.manager.blocks.get? id = some e → e.contents = some c → (f e c).DealsFrom s) :
    (withIdle id f).DealsFrom s := by
  unfold withIdle
  rw [dealsFrom_manager_bind]
  split
  · exact dealsFrom_refuse _ _
  next e he =>
  split
  · exact dealsFrom_refuse _ _
  next c hc => exact h e c he hc

theorem dealsFrom_del (h : s.Orderly) (id : BlockId) : (del id : Run K _).DealsFrom s := by
  refine dealsFrom_withIdle fun e c he hc => ?_
  cases hst : e.state with
  | started => exact dealsFrom_refuse _ _
  | stopped =>
    dsimp only
    rw [dealsFrom_manager_bind]
    split
    · exact dealsFrom_refuse _ _
    next factory hfac =>
    have hne : e.contents ≠ none := by rw [hc]; exact Option.some_ne_none c
    have hyield := (h.notice (.deleted id)).yields he hne hst hfac rfl
    let last : Run K (Except EngineError Unit) := do
      release e.serial c
      return .ok ()
    have hlast : ∀ u, last.DealsFrom u := fun u =>
      (dealsFrom_release _ _).bind fun _ _ _ => dealsFrom_pure _
    obtain ⟨t, hrest⟩ := hlast
      ((Machine.without { s with events := .notice (.deleted id) :: s.events } id).handed e factory)
    exact ⟨t, .keep (s.keeps_notice _) (.hand hyield hrest)⟩

theorem dealsFrom_force (h : s.Orderly) (id : BlockId) : (force id : Run K Unit).DealsFrom s := by
  let t : Machine K := { s with events := .notice (.forced id) :: s.events }
  refine dealsFrom_notify_bind (dealsFrom_manager_bind.2 ?_)
  show (erase id >>= _).DealsFrom t
  cases he : t.manager.blocks.get? id with
  | none => exact dealsFrom_erase_bind (.keep (Machine.keeps_without he) .nil) (dealsFrom_pure _)
  | some e =>
    have hforce : t.Forces id e := ⟨he, rfl, (h.notice (.forced id)).not_isLive_without he⟩
    refine dealsFrom_erase_bind (.force hforce .nil) ?_
    dsimp only
    cases e.contents with
    | none => exact dealsFrom_pure _
    | some c => exact dealsFrom_release _ _

section Calls

variable {call : Call K}

/-- Something is noted about an idle block and told, then its hook is called. -/
theorem dealsFrom_mark (hcall : call.Deals) (h : s.Orderly) (hook : Hook) {id : BlockId}
    {e : Entry K} {c : K.Contents} (he : s.manager.blocks.get? id = some e)
    (hc : e.contents = some c) (hadm : e.Admits s.manager hook) (n : Notice) (a : α) :
    (do
      modifyEntry id hook.mark
      notify n
      discard (call id hook)
      return a : Run K α).DealsFrom s := by
  have hne : e.contents ≠ none := by rw [hc]; exact Option.some_ne_none c
  refine dealsFrom_modifyEntry_bind hook.serial_mark (dealsFrom_notify_bind ?_)
  exact (hcall.marked (h.notice n) he hne hadm).discard.bind fun _ _ _ => dealsFrom_pure _

theorem dealsFrom_start (hcall : call.Deals) (h : s.Orderly) (id : BlockId) :
    (start call id).DealsFrom s := by
  refine dealsFrom_withIdle fun e c he hc => ?_
  dsimp only
  cases hst : e.state with
  | started => exact dealsFrom_notify_bind (dealsFrom_pure _)
  | stopped => exact dealsFrom_mark hcall h .start he hc hst (.started id) _

theorem dealsFrom_stop (hcall : call.Deals) (h : s.Orderly) (id : BlockId) :
    (stop call id).DealsFrom s := by
  refine dealsFrom_withIdle fun e c he hc => ?_
  dsimp only
  cases hst : e.state with
  | stopped => exact dealsFrom_notify_bind (dealsFrom_pure _)
  | started => exact dealsFrom_mark hcall h .stop he hc hst (.stopped id) _

theorem dealsFrom_connect (hcall : call.Deals) (h : s.Orderly) (id : BlockId) (port : Port)
    (dest : BlockId) : (Run.bind call id port dest).DealsFrom s := by
  unfold Run.bind
  rw [dealsFrom_manager_bind]
  split
  · next hdest =>
    exact dealsFrom_withIdle fun e c he hc =>
      dealsFrom_mark hcall h (.bind port dest) he hc hdest (.bound id port dest) _
  · exact dealsFrom_refuse _ _

theorem dealsFrom_conf (hcall : call.Deals) (h : s.Orderly) (id : BlockId) (entry : String) :
    (conf call id entry).DealsFrom s := by
  refine dealsFrom_withIdle fun e c he hc => dealsFrom_notify_bind ?_
  have hplain : (call id (.configure entry)).DealsFrom _ :=
    hcall.plain trivial (h.notice (.configured id entry))
  exact hplain.discard.bind fun _ _ _ => dealsFrom_pure _

theorem dealsFrom_clear (hcon : Call.Conducts call) (hcall : call.Deals) (h : s.Orderly)
    (n : Nat) : (clear call n).DealsFrom s := by
  induction n generalizing s with
  | zero => exact dealsFrom_outOfFuel
  | succ n ih =>
    unfold clear
    rw [dealsFrom_manager_bind]
    split
    · exact dealsFrom_pure _
    next id _ =>
    refine (dealsFrom_stop hcall h id).discard.bind fun _ t hstop => ?_
    have ht : t.Orderly := (conducts_stop hcon id).discard.orderly h hstop
    refine (dealsFrom_del ht id).bind fun x u hdel => ?_
    have hu : u.Orderly := (conducts_del id).orderly ht hdel
    cases x with
    | ok _ => exact ih hu
    | error _ =>
      exact (dealsFrom_force hu id).bind fun _ v hforce =>
        ih ((conducts_force id).orderly hu hforce)

/-! ## All that is done for a request -/

theorem dealsFrom_watch (w : Watch) : (watch w : Run K _).DealsFrom s := by
  unfold watch
  rw [dealsFrom_manager_bind]
  split
  · split
    · exact dealsFrom_refuse _ _
    · refine DealsFrom.bind ?_ fun _ _ _ => dealsFrom_notify_bind (dealsFrom_pure _)
      exact dealsFrom_commit rfl fun _ => ⟨rfl, rfl, rfl⟩
  · exact dealsFrom_refuse _ _

theorem dealsFrom_direct (hcon : Call.Conducts call) (hcall : call.Deals) (h : s.Orderly) (n : Nat)
    {r : Request K.Factory K.Remark} (hr : r.IsDirect) : (perform call n r).DealsFrom s := by
  cases r with
  | clear => exact dealsFrom_clear hcon hcall h n
  | watch w => exact dealsFrom_watch w
  | unwatch w => exact dealsFrom_notify_bind (dealsFrom_modifyManager fun _ => ⟨rfl, rfl, rfl⟩)
  | act a =>
    refine (dealsFrom_onHost (·.act a)).bind fun outcome _ _ => ?_
    cases outcome with
    | noInstant => exact dealsFrom_throw _
    | _ => exact dealsFrom_pure _
  | listen path => exact dealsFrom_onHost (·.listen path)
  | accept fd => exact dealsFrom_onHost (·.accept fd)
  | receive fd => exact dealsFrom_onHost (·.receive fd)
  | transmit fd bytes => exact dealsFrom_onHost (·.transmit fd bytes)
  | close fd => exact dealsFrom_onHost fun h => ((), h.close fd)
  | removeFile path => exact dealsFrom_onHost (·.removeFile path)
  | _ => exact hr.elim

theorem dealsFrom_arm (owner : BlockId) (tid : TimerId) (delay : Duration) (arg : Payload) :
    (arm owner tid delay arg : Run K _).DealsFrom s := by
  unfold arm
  rw [dealsFrom_manager_bind]
  split
  · refine (dealsFrom_onHost _).bind fun now _ _ => ?_
    cases now.later? delay with
    | none => exact dealsFrom_refuse _ _
    | some expiration =>
      refine dealsFrom_notify_bind (DealsFrom.bind ?_ fun _ _ _ => dealsFrom_pure _)
      exact dealsFrom_commit rfl fun _ => ⟨rfl, rfl, rfl⟩
  · exact dealsFrom_refuse _ _

theorem dealsFrom_disarm (owner : BlockId) (tid : TimerId) :
    (disarm owner tid : Run K Unit).DealsFrom s := by
  have hlast : ∀ t : Machine K, (modifyManager fun m : Manager K =>
      { m with timers := (s.manager.timers.remove owner tid).2 }).DealsFrom t :=
    fun t => dealsFrom_modifyManager fun _ => ⟨rfl, rfl, rfl⟩
  show DealsFrom (if (s.manager.timers.remove owner tid).1 then _ else _) s
  split
  · exact dealsFrom_notify_bind (hlast _)
  · exact hlast s

theorem dealsFrom_popThen {now : Instant} {r : Run K α} {f : Timer → Run K α} (h : s.Orderly)
    (hr : r.DealsFrom s) (hf : ∀ t u, u.Orderly → (f t).DealsFrom u) :
    (popThen now r f).DealsFrom s := by
  let g : Manager K → Manager K :=
    fun m => { m with timers := (s.manager.timers.popExpired now).2 }
  have hg : ∀ m : Manager K, m.SameBlocks (g m) := fun _ => ⟨rfl, rfl, rfl⟩
  unfold popThen
  rw [dealsFrom_manager_bind]
  dsimp only
  cases (s.manager.timers.popExpired now).1 with
  | none => exact hr
  | some t =>
    show (modifyManager g >>= fun _ => f t).DealsFrom s
    exact (dealsFrom_modifyManager hg).bind fun _ u hrun =>
      hf t u ((conducts_modifyManager hg).orderly h hrun)

/-- All that is made of operations is a dealing. -/
theorem Operates.deals {r : Run K α} (hr : Operates call Request.IsDirect r)
    (hcon : Call.Conducts call) (hcall : call.Deals) (h : s.Orderly) : r.DealsFrom s := by
  induction hr generalizing s with
  | pure a => exact dealsFrom_pure a
  | outOfFuel => exact dealsFrom_outOfFuel
  | bind hr _ ihr ihf =>
    exact (ihr h).bind fun a t hrun => ihf a ((hr.conducts hcon).orderly h hrun)
  | manager => exact ⟨s, .nil⟩
  | host => exact ⟨s, .nil⟩
  | notify n => exact dealsFrom_notify n
  | remark m => exact ⟨_, .keep (s.keeps_record rfl) .nil⟩
  | readClock => exact dealsFrom_onHost _
  | wait limit => exact dealsFrom_onHost _
  | aside hf => exact dealsFrom_modifyManager fun m => (hf m).toSameBlocks
  | arm owner tid delay arg => exact dealsFrom_arm owner tid delay arg
  | disarm owner tid => exact dealsFrom_disarm owner tid
  | disarmAll => exact dealsFrom_modifyManager fun _ => ⟨rfl, rfl, rfl⟩
  | popThen _ _ ihr ihf => exact dealsFrom_popThen h (ihr h) fun t _ => ihf t
  | add id type => exact dealsFrom_add id type
  | start id => exact dealsFrom_start hcall h id
  | stop id => exact dealsFrom_stop hcall h id
  | connect id port dest => exact dealsFrom_connect hcall h id port dest
  | conf id entry => exact dealsFrom_conf hcall h id entry
  | del id => exact dealsFrom_del h id
  | plain id hook => exact hcall.plain hook h
  | direct n hr => exact dealsFrom_direct hcon hcall h n hr

/-! ## Scripts and hooks -/

theorem dealsFrom_runScript (hcon : Call.Conducts call) (hcall : call.Deals) (n : Nat) {S : Type}
    {leave : S → Run K Unit} (hleave : ∀ c t, (leave c).DealsFrom t)
    (script : Script K.Factory K.Remark S α) (c : S) (h : s.Orderly) :
    (runScript call n leave c script).DealsFrom s := by
  induction script generalizing c s with
  | done a => exact dealsFrom_pure _
  | keep c' next ih => exact ih c' h
  | call r next ih =>
    unfold runScript
    have hr : (perform call n r).DealsFrom s := (operates_perform n r id).deals hcon hcall h
    refine (hr.onBreak fun b t _ => hleave c t).bind fun x t hrun => ?_
    exact ih x c ((conducts_perform hcon n r).orderly h (run?_of_onBreak hrun))

theorem dealsFrom_leave (id : BlockId) (serial : Nat) (c : K.Contents) :
    (leave id serial c).DealsFrom s := by
  refine dealsFrom_record_bind rfl ?_
  unfold giveBack
  rw [dealsFrom_manager_bind]
  split
  · split
    · exact ⟨_, .keep (Machine.keeps_modifyEntry _ id fun _ => rfl) .nil⟩
    · exact dealsFrom_release _ _
  · exact dealsFrom_release _ _

/-- A hook begins, runs and ends. `hin` says that the machine is orderly once it has begun. -/
theorem dealsFrom_enter (hcon : Call.Conducts call) (hcall : call.Deals) (n : Nat) {id : BlockId}
    {hook : Hook} (hin : ∀ e, s.manager.blocks.get? id = some e → e.contents ≠ none →
      (s.entered e.serial id hook).Orderly) : (enter call n id hook).DealsFrom s := by
  unfold enter
  rw [dealsFrom_manager_bind]
  split
  · exact dealsFrom_pure _
  next e he =>
  split
  · exact dealsFrom_notify_bind (dealsFrom_pure _)
  next c hc =>
  refine dealsFrom_modifyEntry_bind (fun _ => rfl) (dealsFrom_record_bind rfl ?_)
  have hne : e.contents ≠ none := by rw [hc]; exact Option.some_ne_none c
  refine DealsFrom.bind (r := runScript _ _ _ _ _) ?_ fun r t _ => ?_
  · exact dealsFrom_runScript hcon hcall n (fun c t => dealsFrom_leave id e.serial c)
      (K.hook c id hook) c (hin e he hne)
  · exact (dealsFrom_leave id e.serial r.2).bind fun _ _ _ => dealsFrom_pure _

end Calls

theorem deals_callHook (n : Nat) : Call.Deals (callHook n : Call K) := by
  induction n with
  | zero => exact ⟨fun _ _ => dealsFrom_outOfFuel, fun _ _ _ _ => dealsFrom_outOfFuel⟩
  | succ n ih =>
    refine ⟨fun {s id hook} hplain h => ?_, fun {s id e hook} h he hc hadm => ?_⟩
    · refine dealsFrom_enter (conducts_callHook n) ih n fun e he hc => ?_
      have hsame : s.marked id hook = s := by simp [Machine.marked, Hook.mark_of_isPlain hplain]
      have hin : ((s.marked id hook).entered e.serial id hook).Orderly := h.enter he hc
      rwa [hsame] at hin
    · refine dealsFrom_enter (conducts_callHook n) ih n fun e' he' _ => ?_
      obtain rfl : e' = hook.mark e := by
        simpa [Machine.marked, Keyed.get?_modify, he] using he'.symm
      rw [Hook.serial_mark]
      exact h.enter he hc

/-! ## Errands -/

end Run

/-- An errand is not the end of an engine that breaks off, when all blocks are dropped with the
manager. -/
def Errand.Settles (s : Machine K) : Errand K → Prop
  | .play _ _ => True
  | .dispose n => ∀ b t, (s.withTimers .empty).run? (Run.clear (callHook n) n) ≠ some (.error b, t)

theorem Errand.deals {e : Errand K} {s : Machine K} (he : e.Settles s) (h : s.Orderly) :
    e.run.DealsFrom s := by
  cases e with
  | play n script =>
    refine DealsFrom.bind (r := runScript _ _ _ _ _) ?_ fun _ _ _ => dealsFrom_pure _
    exact dealsFrom_runScript (conducts_callHook n) (deals_callHook n) n
      (fun _ _ => dealsFrom_pure _) script () h
  | dispose n =>
    have hdis : (disarmAll : Run K Unit).DealsFrom s :=
      dealsFrom_modifyManager fun _ => ⟨rfl, rfl, rfl⟩
    refine hdis.bind fun _ t hrun => ?_
    have ht : t.Orderly := conducts_disarmAll.orderly h hrun
    cases hrun
    have hclear := dealsFrom_clear (conducts_callHook n) (deals_callHook n) ht n
    refine (hclear.onBreak fun b u hb => absurd hb (he b u)).bind fun _ u _ => ?_
    exact dealsFrom_modifyManager fun _ => ⟨rfl, rfl, rfl⟩

end BlockFlow
