import BlockFlow.Proofs.Expiry
import BlockFlow.Proofs.Seen

/-!
# What happened before

The changes of a run follow one after the other, so what is the case after some of them came about
by one of them. Here a change of a run is taken together with all the changes before it.

1. `Path`: changes that follow one after the other; `Path.exists_change`: what holds after them came
   about by one of them; `LastOf`: the last one of a kind.
2. `Run.Makes`: a run makes a change after others; a rule for each thing that a run is made of.
3. `Visit.Begins`, `makes_callHook`: a change by which a hook is called directly, and what a call of
   a hook does until then.
4. `Machine.Past`, `Machine.Lived`: all that has happened to an engine since its beginning.
-/

namespace BlockFlow

variable {K : Kit} {α β : Type}

/-- A machine before a change and the machine after it. -/
abbrev Change (K : Kit) := Machine K × Machine K

/-! ## Paths -/

/-- Changes that follow one after the other, from one machine to another. -/
inductive Path : Machine K → List (Change K) → Machine K → Prop
  | nil {s : Machine K} : Path s [] s
  | cons {s u t : Machine K} {ps : List (Change K)} (h : Path u ps t) : Path s ((s, u) :: ps) t

namespace Path

variable {s t u : Machine K} {ps qs : List (Change K)}

theorem append (h : Path s ps t) (h' : Path t qs u) : Path s (ps ++ qs) u := by
  induction h with
  | nil => exact h'
  | cons _ ih => exact .cons (ih h')

theorem of_append (h : Path s (ps ++ qs) u) : ∃ t, Path s ps t ∧ Path t qs u := by
  induction ps generalizing s with
  | nil => exact ⟨s, .nil, h⟩
  | cons p ps ih =>
    cases h with
    | cons h =>
      obtain ⟨t, hps, hqs⟩ := ih h
      exact ⟨t, .cons hps, hqs⟩

/-- The last change leads to the machine after all of them. -/
theorem eq_of_append {v : Machine K} (h : Path s (ps ++ [(t, u)]) v) : v = u := by
  obtain ⟨_, -, hlast⟩ := h.of_append
  cases hlast with
  | cons h =>
    cases h
    rfl

/-- What each change keeps is kept by all of them. -/
theorem keeps {P : Machine K → Prop} (h : Path s ps t) (hP : ∀ p ∈ ps, P p.1 → P p.2)
    (hs : P s) : P t := by
  induction h with
  | nil => exact hs
  | cons _ ih => exact ih (fun p hp => hP p (.tail _ hp)) (hP _ (.head _) hs)

/-- What did not hold before some changes and holds after them came about by one of them. -/
theorem exists_change {P : Machine K → Prop} (h : Path s ps t) (hs : ¬ P s) (ht : P t) :
    ∃ p ∈ ps, ¬ P p.1 ∧ P p.2 := by
  refine Classical.byContradiction fun hne => ?_
  exact h.keeps (P := fun u => ¬ P u) (fun p hp h1 h2 => hne ⟨p, hp, h1, h2⟩) hs ht

end Path

/-- A member of a list for which `R` holds, and the members after it, for none of which it does. -/
structure LastOf {γ : Type} (R : γ → Prop) (ps : List γ) (p : γ) (after : List γ) : Prop where
  holds : R p
  none_after : ∀ q ∈ after, ¬ R q
  suffix : p :: after <:+ ps

theorem exists_lastOf {γ : Type} {R : γ → Prop} {ps : List γ} (h : ∃ p ∈ ps, R p) :
    ∃ p after, LastOf R ps p after := by
  induction ps with
  | nil =>
    obtain ⟨p, hp, -⟩ := h
    cases hp
  | cons p ps ih =>
    by_cases hps : ∃ p ∈ ps, R p
    · obtain ⟨q, after, hq⟩ := ih hps
      exact ⟨q, after, hq.holds, hq.none_after, hq.suffix.trans (List.suffix_cons p ps)⟩
    · obtain ⟨q, hq, hR⟩ := h
      rcases List.mem_cons.1 hq with rfl | hq
      · exact ⟨q, ps, hR, fun r hr hRr => hps ⟨r, hr, hRr⟩, List.suffix_rfl⟩
      · exact absurd ⟨q, hq, hR⟩ hps

/-- The changes after a change lead on from the machine after it. -/
theorem LastOf.path {R : Change K → Prop} {s t : Machine K} {ps after : List (Change K)}
    {p : Change K} (h : LastOf R ps p after) (hps : Path s ps t) : Path p.2 after t := by
  obtain ⟨before, rfl⟩ := h.suffix
  obtain ⟨u, -, hlast⟩ := hps.of_append
  cases hlast with
  | cons h => exact h

namespace Run

/-! ## Changes after others -/

/-- A run that begins with a machine makes a change after the given ones. -/
def Makes : Run K α → Machine K → List (Change K) → Change K → Prop
  | .done _, _, _, _ => False
  | .broken _, _, _, _ => False
  | .exhausted, _, _, _ => False
  | .look next, s, qs, p => Makes (next s) s qs p
  | .put t next, s, qs, p => qs = [] ∧ p = (s, t) ∨ ∃ rs, qs = (s, t) :: rs ∧ Makes next t rs p
  | .moment next, s, qs, p => Makes next s qs p

variable {s t : Machine K} {qs : List (Change K)} {p : Change K}

theorem makes_iff {r : Run K α} : r.Makes s qs p ↔ qs ++ [p] <+: r.changes s := by
  induction r generalizing s qs with
  | done | broken | exhausted => simp [Makes, changes]
  | look next ih => exact ih _
  | put t next ih =>
    cases qs with
    | nil => simp [Makes, changes]
    | cons q qs =>
      simp only [Makes, changes, List.cons_append, List.cons_prefix_cons, reduceCtorEq, false_and,
        false_or, List.cons.injEq, ih]
      constructor
      · rintro ⟨rs, ⟨rfl, rfl⟩, h⟩
        exact ⟨rfl, h⟩
      · rintro ⟨rfl, h⟩
        exact ⟨qs, ⟨rfl, rfl⟩, h⟩
  | moment next ih => exact ih

theorem Makes.mem {r : Run K α} (h : r.Makes s qs p) : ∀ q ∈ qs ++ [p], q ∈ r.changes s :=
  fun _ hq => (makes_iff.1 h).subset hq

theorem makes_of_getElem? {r : Run K α} {k : Nat} (h : (r.changes s)[k]? = some p) :
    r.Makes s ((r.changes s).take k) p := by
  obtain ⟨hk, rfl⟩ := List.getElem?_eq_some_iff.1 h
  rw [makes_iff, List.take_append_getElem hk]
  exact List.take_prefix _ _

theorem path_changes {r : Run K α} {x : Except Breakdown α} (h : s.run? r = some (x, t)) :
    Path s (r.changes s) t := by
  induction r generalizing s with
  | done | broken =>
    cases h
    exact .nil
  | exhausted => cases h
  | look next ih => exact ih _ h
  | put u next ih => exact .cons (ih h)
  | moment next ih => exact ih h

/-- The changes before a change lead to the machine before it. -/
theorem Makes.path {r : Run K α} (h : r.Makes s qs p) : Path s qs p.1 := by
  induction r generalizing s qs with
  | done | broken | exhausted => exact h.elim
  | look next ih => exact ih _ h
  | put t next ih =>
    rcases h with ⟨rfl, rfl⟩ | ⟨rs, rfl, h⟩
    · exact .nil
    · exact .cons (ih h)
  | moment next ih => exact ih h

theorem makes_pure {a : α} : ¬ (pure a : Run K α).Makes s qs p := id

theorem makes_bind {r : Run K α} {f : α → Run K β} :
    (r >>= f).Makes s qs p ↔ r.Makes s qs p ∨
      ∃ a t rs, s.run? r = some (.ok a, t) ∧ qs = r.changes s ++ rs ∧ (f a).Makes t rs p := by
  show (r.andThen f).Makes s qs p ↔ _
  induction r generalizing s qs with
  | done a =>
    constructor
    · exact fun h => .inr ⟨a, s, qs, rfl, rfl, h⟩
    · rintro (h | ⟨_, _, rs, hrun, rfl, h⟩)
      · exact h.elim
      · cases hrun
        exact h
  | broken b =>
    constructor
    · exact False.elim
    · rintro (h | ⟨_, _, _, hrun, -⟩)
      · exact h
      · cases hrun
  | exhausted =>
    constructor
    · exact False.elim
    · rintro (h | ⟨_, _, _, hrun, -⟩)
      · exact h
      · cases hrun
  | look next ih => exact ih _
  | put u next ih =>
    constructor
    · rintro (h | ⟨rs, rfl, h⟩)
      · exact .inl (.inl h)
      · rcases ih.1 h with h' | ⟨a, t, rs', hrun, rfl, h'⟩
        · exact .inl (.inr ⟨rs, rfl, h'⟩)
        · exact .inr ⟨a, t, rs', hrun, rfl, h'⟩
    · rintro ((h | ⟨rs, rfl, h⟩) | ⟨a, t, rs', hrun, rfl, h⟩)
      · exact .inl h
      · exact .inr ⟨rs, rfl, ih.2 (.inl h)⟩
      · exact .inr ⟨_, rfl, ih.2 (.inr ⟨a, t, rs', hrun, rfl, h⟩)⟩
  | moment next ih => exact ih

theorem makes_manager {f : Manager K → Run K α} :
    (manager >>= f).Makes s qs p ↔ (f s.manager).Makes s qs p := Iff.rfl

theorem makes_discard {r : Run K α} : (discard r).Makes s qs p ↔ r.Makes s qs p := by
  show (_ <$> r).Makes s qs p ↔ _
  rw [map_eq_pure_bind, makes_bind]
  constructor
  · rintro (h | ⟨_, _, _, _, _, h⟩)
    · exact h
    · exact h.elim
  · exact .inl

theorem makes_notify {note : Notice} :
    (notify note).Makes s qs p ↔
      qs = [] ∧ p = (s, { s with events := .notice note :: s.events }) := by
  constructor
  · rintro (h | ⟨_, _, h⟩)
    · exact h
    · exact h.elim
  · exact .inl

end Run

/-! ## Direct calls -/

/-- By a change a hook is called while just the given hooks are open. -/
structure Visit.Begins (v : Visit) (stack : List Frame) (p : Change K) : Prop where
  stack_eq : p.1.stack = stack
  events_eq : p.2.events = .entered v.serial v.id v.hook :: p.1.events

namespace Machine

theorem of_mem_visitOf {s : Machine K} {id : BlockId} {hook : Hook} {v : Visit}
    (h : v ∈ s.visitOf id hook) : v.id = id ∧ v.hook = hook := by
  cases he : s.manager.blocks.get? id with
  | none =>
    rw [visitOf_of_unknown he] at h
    cases h
  | some e =>
    by_cases hc : e.contents = none
    · rw [visitOf_of_busy he hc] at h
      cases h
    · rw [visitOf_of_idle he hc, List.mem_singleton] at h
      subst h
      exact ⟨rfl, rfl⟩

/-- The machine after the contents of a block were put away for one of its hooks. -/
def away (s : Machine K) (id : BlockId) : Machine K :=
  { s with manager.blocks := s.manager.blocks.modify id ({ · with contents := none }) }

end Machine

namespace Visit

variable {v : Visit} {stack : List Frame} {s : Machine K} {p : Change K}

theorem not_begins_of_inside (h : Machine.Inside stack p.1 p.2) : ¬ v.Begins stack p := by
  rintro ⟨hstack, hevents⟩
  have hvisits := h.visits_eq
  have hopen : openHooks p.1.events = stack := hstack
  unfold Machine.visits at hvisits
  rw [hevents, BlockFlow.visits, if_pos hopen] at hvisits
  simpa using congrArg List.length hvisits

theorem not_begins_of_events_eq (h : p.2.events = p.1.events) : ¬ v.Begins stack p := fun hp =>
  absurd (h.symm.trans hp.events_eq) (List.cons_ne_self _ _).symm

theorem not_begins_notice (note : Notice) :
    ¬ v.Begins stack (s, { s with events := .notice note :: s.events }) := fun hp => by
  cases hp.events_eq

end Visit

namespace Run

variable {s t : Machine K} {qs : List (Change K)} {p : Change K} {v : Visit} {n : Nat}

/-- A call of a hook calls the hook directly after the contents of its block were put away, and no
other hook. -/
theorem makes_callHook {id : BlockId} {hook : Hook} (h : (callHook n id hook).Makes s qs p)
    (hp : v.Begins s.stack p) : v ∈ s.visitOf id hook ∧ qs = [(s, s.away id)] := by
  cases n with
  | zero => exact h.elim
  | succ n =>
    unfold callHook enter at h
    rw [makes_manager] at h
    cases he : s.manager.blocks.get? id with
    | none =>
      simp only [he] at h
      exact h.elim
    | some e =>
      cases hc : e.contents with
      | none =>
        simp only [he, hc] at h
        rcases h with ⟨-, rfl⟩ | ⟨_, -, h⟩
        · exact absurd hp (Visit.not_begins_notice _)
        · exact h.elim
      | some c =>
        simp only [he, hc] at h
        rcases h with ⟨-, rfl⟩ | ⟨_, rfl, ⟨rfl, rfl⟩ | ⟨_, -, h⟩⟩
        · exact absurd hp (Visit.not_begins_of_events_eq rfl)
        · obtain ⟨hserial, hid, hhook⟩ : e.serial = v.serial ∧ id = v.id ∧ hook = v.hook := by
            simpa using hp.events_eq
          rw [Machine.visitOf_of_idle he (by simp [hc]), List.mem_singleton, hserial, hid, hhook]
          exact ⟨rfl, rfl⟩
        · -- What happens afterwards calls nothing directly.
          have hcall : ∀ id hook, (callHook (K := K) n id hook).StaysWithin := fun id hook s =>
            (above_callHook n id hook s).monoChanging (fun _ _ h => h.1.toWithin) (fun _ h => h.1)
              fun _ _ h => h.1
          have hrest := inside_runScript_leave (s := s.entered e.serial id hook) hcall rfl n id
            e.serial c (K.hook c id hook)
          exact absurd hp (Visit.not_begins_of_inside
            (hrest.change (Makes.mem h p (List.mem_append_right _ (.head _)))))

end Run

/-! ## Histories -/

namespace Machine

/-- All that has happened to an engine since its beginning, which rests now. -/
inductive Past : List (Change K) → Machine K → Prop
  | fresh (settings : Settings) (host : Host) : Past [] (.fresh settings host)
  | after {ps : List (Change K)} {s t : Machine K} {x : Except Breakdown Unit} (h : Past ps s)
    (e : Errand K) (hrun : s.run? e.run = some (x, t)) : Past (ps ++ e.run.changes s) t

/-- All that has happened to an engine since its beginning, which rests now or is at an errand,
whether or not that errand ever comes to an end. -/
inductive Lived : List (Change K) → Machine K → Prop
  | between {ps : List (Change K)} {s : Machine K} (h : Past ps s) : Lived ps s
  | during {ps qs : List (Change K)} {s t : Machine K} (h : Past ps s) (e : Errand K)
    (hqs : qs <+: e.run.changes s) (ht : Path s qs t) : Lived (ps ++ qs) t

variable {s : Machine K} {ps : List (Change K)}

theorem Past.path (h : Past ps s) : ∃ settings host, Path (.fresh settings host) ps s := by
  induction h with
  | fresh settings host => exact ⟨settings, host, .nil⟩
  | after _ e hrun ih =>
    obtain ⟨settings, host, hpath⟩ := ih
    exact ⟨settings, host, hpath.append (Run.path_changes hrun)⟩

theorem Lived.path (h : Lived ps s) : ∃ settings host, Path (.fresh settings host) ps s := by
  cases h with
  | between h => exact h.path
  | during h e _ ht =>
    obtain ⟨settings, host, hpath⟩ := h.path
    exact ⟨settings, host, hpath.append ht⟩

/-- What holds of each change of every errand holds of all that has happened. -/
theorem Past.changes {R : Machine K → Machine K → Prop} (h : Past ps s)
    (hR : ∀ (e : Errand K) s, ∀ p ∈ e.run.changes s, R p.1 p.2) : ∀ p ∈ ps, R p.1 p.2 := by
  induction h with
  | fresh => exact fun p hp => by cases hp
  | after _ e _ ih => exact List.forall_mem_append.2 ⟨ih, hR e _⟩

theorem Lived.changes {R : Machine K → Machine K → Prop} (h : Lived ps s)
    (hR : ∀ (e : Errand K) s, ∀ p ∈ e.run.changes s, R p.1 p.2) : ∀ p ∈ ps, R p.1 p.2 := by
  cases h with
  | between h => exact h.changes hR
  | during h e hqs _ =>
    exact List.forall_mem_append.2 ⟨h.changes hR, fun p hp => hR e _ p (hqs.subset hp)⟩

end Machine

end BlockFlow
