import BlockFlow.Proofs.Agreement
import BlockFlow.Proofs.Confined

/-!
# Commands for different blocks commute

A command is confined to its block, so one that comes after it finds another block as it was, and
what the two of them come to does not depend on which of them is first.

1. `Keyed.ext_get?`: a table is what its keys have for values. `Manager.registry`: what is known of
   the live blocks.
2. `Upshot.FitTogether`: two commands came to what was to come of each of them by itself;
   `Fits.together`: they do if the blocks are different. `FitTogether.swap`: the order makes no
   difference then.
3. `Run.Commute`, `commands_commute`: commands for different blocks commute.
-/

namespace BlockFlow

/-- Tables that have the same value for each key are the same. -/
theorem Keyed.ext_get? {κ α : Type} [LT κ] [DecidableEq κ] [KeyOrder κ] {t t' : Keyed κ α}
    (h : ∀ k, t.get? k = t'.get? k) : t = t' := by
  have hirrefl : Std.Irrefl (α := κ × α) (fun p q => p.1 < q.1) := ⟨fun p => KeyOrder.irrefl p.1⟩
  have hantisymm : Std.Antisymm (α := κ × α) (fun p q => p.1 < q.1) :=
    ⟨fun p q hpq hqp => absurd (KeyOrder.trans hpq hqp) (KeyOrder.irrefl p.1)⟩
  refine Keyed.ext (t.ascending.eq_of_mem_iff t'.ascending fun p => ?_)
  rw [← get?_eq_some_iff, ← get?_eq_some_iff, h]

variable {K : Kit}

/-- What is known of the live blocks, in the order of their numbers. -/
def Manager.registry (m : Manager K) : Keyed BlockId (Standing K) :=
  m.blocks.mapValues Entry.standing

theorem Machine.registry_eq {s t : Machine K} (h : ∀ id, s.standing? id = t.standing? id) :
    s.manager.registry = t.manager.registry := by
  refine Keyed.ext_get? fun id => ?_
  unfold Manager.registry
  rw [Keyed.get?_mapValues, Keyed.get?_mapValues]
  exact h id

/-! ## After a command on another block -/

namespace Machine.Confined

variable {s t : Machine K} {id id' : BlockId} (h : s.Confined id t)

include h

theorem settings_eq : t.manager.settings = s.manager.settings := by rw [h.manager]

theorem standing?_eq (hid : id' ≠ id) : t.standing? id' = s.standing? id' := by
  rw [standing?, h.blocks hid, standing?]

theorem obeys {rule : K.Rule} (hs : s.Obeys rule id') (hid : id' ≠ id) : t.Obeys rule id' := by
  intro e c he hc
  rw [h.blocks hid] at he
  exact hs e c he hc

theorem make?_eq (hsteady : ∀ type factory, s.manager.factories.get? type = some factory →
    K.IsSteady factory) : t.make? = s.make? := by
  have hfactories : t.manager.factories = s.manager.factories := by rw [h.manager]
  funext type
  rw [make?, make?, hfactories]
  cases hfactory : s.manager.factories.get? type with
  | none => rfl
  | some factory =>
    rw [Option.map_some, Option.map_some, hsteady type factory hfactory _ _ h.host]

end Machine.Confined

/-! ## Two commands -/

/-- What two commands for different blocks came to is what was to come of each of them by itself. -/
structure Upshot.FitTogether {ε δ : Type} (x : Upshot K ε) (id : BlockId) (y : Upshot K δ)
    (id' : BlockId) (s : Machine K) (r : Except ε Unit × Except δ Unit) (t : Machine K) : Prop where
  answers : r = (x.answer, y.answer)
  calls (i : BlockId) :
    t.calls i = s.calls i ++ if i = id then x.hooks else if i = id' then y.hooks else []
  block (i : BlockId) :
    t.standing? i = if i = id then x.block else if i = id' then y.block else s.standing? i
  manager : t.manager = { s.manager with blocks := t.manager.blocks, built := t.manager.built }

namespace Upshot

variable {ε δ : Type} {x : Upshot K ε} {y : Upshot K δ} {id id' : BlockId} {s t u : Machine K}

theorem Fits.together {a : Except ε Unit} {b : Except δ Unit} (hx : x.Fits id s a t)
    (hy : y.Fits id' t b u) (hid : id ≠ id') : x.FitTogether id y id' s (a, b) u where
  answers := by rw [hx.answer, hy.answer]
  calls i := by
    by_cases hi : i = id
    · rw [if_pos hi, hi, hy.confined.calls hid, hx.calls]
    · by_cases hi' : i = id'
      · rw [if_neg hi, if_pos hi', hi', hy.calls, hx.confined.calls (Ne.symm hid)]
      · rw [if_neg hi, if_neg hi', hy.confined.calls hi', hx.confined.calls hi, List.append_nil]
  block i := by
    by_cases hi : i = id
    · rw [if_pos hi, hi, hy.confined.standing?_eq hid, hx.block]
    · by_cases hi' : i = id'
      · rw [if_neg hi, if_pos hi', hi', hy.block]
      · rw [if_neg hi, if_neg hi', hy.confined.standing?_eq hi', hx.confined.standing?_eq hi]
  manager := by rw [hy.confined.manager, hx.confined.manager]

/-- The order of two commands makes no difference. -/
theorem FitTogether.swap {r : Except ε Unit × Except δ Unit} {r' : Except δ Unit × Except ε Unit}
    (h : x.FitTogether id y id' s r t) (h' : y.FitTogether id' x id s r' u) (hid : id ≠ id') :
    r' = r.swap ∧ (∀ i, t.calls i = u.calls i) ∧ t.manager.registry = u.manager.registry ∧
      t.manager = { u.manager with blocks := t.manager.blocks, built := t.manager.built } := by
  have hswap {α : Type} (i : BlockId) (p q o : α) :
      (if i = id then p else if i = id' then q else o) =
        if i = id' then q else if i = id then p else o := by
    by_cases hi : i = id
    · rw [if_pos hi, if_pos hi, if_neg (hi ▸ hid)]
    · rw [if_neg hi, if_neg hi]
  refine ⟨by rw [h.answers, h'.answers, Prod.swap_prod_mk], fun i => ?_,
    Machine.registry_eq fun i => ?_, by rw [h.manager, h'.manager]⟩
  · rw [h.calls, h'.calls, hswap]
  · rw [h.block, h'.block, hswap]

end Upshot

namespace Run

variable {α β : Type}

/-- One run after the other: the results of both. -/
def both (r : Run K α) (r' : Run K β) : Run K (α × β) := do
  let a ← r
  let b ← r'
  return (a, b)

/-- Two runs come to the same results one after the other, whichever is first; the same hooks of
each block are called, and the same is known of the live blocks afterwards. Nothing else that the
manager keeps differs but the number of instances. -/
def Commute (r : Run K α) (r' : Run K β) (s : Machine K) : Prop :=
  ∃ a b t u, s.run? (both r r') = some (.ok (a, b), t) ∧ s.run? (both r' r) = some (.ok (b, a), u) ∧
    (∀ id, t.calls id = u.calls id) ∧ t.manager.registry = u.manager.registry ∧
    t.manager = { u.manager with blocks := t.manager.blocks, built := t.manager.built }

variable {s : Machine K} {rule : K.Rule} {id₁ id₂ : BlockId}

theorem fitTogether_exec (n : Nat) (hlax : s.manager.settings.strictBind = false)
    (h₁ : s.Obeys rule id₁) (h₂ : s.Obeys rule id₂)
    (hsteady : ∀ type factory, s.manager.factories.get? type = some factory → K.IsSteady factory)
    (hid : id₁ ≠ id₂) (kind₁ kind₂ : CommandKind) (arg₁ arg₂ : Option String) :
    (both (exec (callHook (n + 1)) kind₁ id₁ arg₁)
      (exec (callHook (n + 1)) kind₂ id₂ arg₂)).Abides .total
      ((upshot s.make? rule kind₁ id₁ arg₁ (s.standing? id₁)).FitTogether id₁
        (upshot s.make? rule kind₂ id₂ arg₂ (s.standing? id₂)) id₂ s) s := by
  unfold both
  rw [abides_bind]
  refine (fits_exec hlax h₁ kind₁ arg₁).mono fun a t ht => ?_
  have hconfined := ht.confined
  have hlax' : t.manager.settings.strictBind = false := by rw [hconfined.settings_eq, hlax]
  have hthen := fits_exec (n := n) hlax' (hconfined.obeys h₂ (Ne.symm hid)) kind₂ arg₂
  rw [hconfined.make?_eq hsteady, hconfined.standing?_eq (Ne.symm hid)] at hthen
  rw [abides_bind]
  exact hthen.mono fun b u hu => ht.together hu hid

end Run

open Run

/-- **Commands for different blocks commute.** Without strict binding, where the hooks of the two
blocks leave the engine alone and leave contents that depend on nothing but the contents they were
called with, and what factories build does not depend on earlier calls, any two commands for
different blocks come to the same answers in either order, call the same hooks of each block and
leave the same blocks. -/
theorem commands_commute (n : Nat) {s : Machine K} {rule : K.Rule} {id₁ id₂ : BlockId}
    (hlax : s.manager.settings.strictBind = false)
    (h₁ : s.Obeys rule id₁) (h₂ : s.Obeys rule id₂)
    (hsteady : ∀ type factory, s.manager.factories.get? type = some factory → K.IsSteady factory)
    (hid : id₁ ≠ id₂) (kind₁ kind₂ : CommandKind) (arg₁ arg₂ : Option String) :
    (exec (callHook (n + 1)) kind₁ id₁ arg₁).Commute
      (exec (callHook (n + 1)) kind₂ id₂ arg₂) s := by
  obtain ⟨⟨a, b⟩, t, hrun, ht⟩ := abides_total_iff.1
    (fitTogether_exec n hlax h₁ h₂ hsteady hid kind₁ kind₂ arg₁ arg₂)
  obtain ⟨⟨b', a'⟩, u, hrun', hu⟩ := abides_total_iff.1
    (fitTogether_exec n hlax h₂ h₁ hsteady (Ne.symm hid) kind₂ kind₁ arg₂ arg₁)
  obtain ⟨hresults, hsame⟩ := ht.swap hu hid
  obtain ⟨rfl, rfl⟩ := Prod.mk.inj hresults
  exact ⟨a', b', t, u, hrun, hrun', hsame⟩

/-! ## Hello blocks -/

/-- What the lifecycle hooks of a hello block leave. -/
def Hello.rule (h : Hello) (_ : BlockId) : Hook → Hello
  | .configure conf => { h with name := conf }
  | _ => h

theorem obeys_hellos (s : Machine hellos) (id : BlockId) : s.Obeys Hello.rule id := by
  intro e c _ _ hook hhook
  refine ⟨isCalm_hellos c id hook hhook, ?_⟩
  cases hook with
  | bind | start | stop | configure => exact fun _ => rfl
  | _ => exact hhook.elim

/-- Two hello blocks. -/
def neighbours (settings : Settings) : Machine hellos where
  manager :=
    { settings
      factories := Keyed.empty.insert "hello" true
      blocks :=
        (Keyed.empty.insert ⟨1⟩ { serial := 0, type := "hello", contents := some {} }).insert ⟨2⟩
          { serial := 1, type := "hello", contents := some {} }
      watches := .empty 1024
      built := 2 }
  host := .manual

/-- A block can be bound to another one before or after the other one is deleted. -/
theorem commands_commute_neighbours :
    (exec (callHook 1) .bind ⟨1⟩ (some "7:2")).Commute (exec (callHook 1) .del ⟨2⟩ none)
      (neighbours {}) :=
  commands_commute 0 rfl (obeys_hellos _ _) (obeys_hellos _ _) (fun _ _ _ _ _ _ => rfl)
    (by decide) .bind .del (some "7:2") none

/-- With strict binding it cannot be bound to a block that is not live any more. -/
theorem not_commute_strict :
    ¬ (exec (callHook 1) .bind ⟨1⟩ (some "7:2")).Commute (exec (callHook 1) .del ⟨2⟩ none)
      (neighbours { strictBind := true }) := by
  rintro ⟨a, b, t, u, ht, hu, -⟩
  have ha : a = .ok () := by cases ht; rfl
  have ha' : a = .error (.engine (.blockNotFound ⟨2⟩)) := by cases hu; rfl
  rw [ha] at ha'
  cases ha'

end BlockFlow
