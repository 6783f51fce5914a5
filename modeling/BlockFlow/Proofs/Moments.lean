import BlockFlow.Proofs.Terms

/-!
# The moments of a run

A run passes through moments, at which a script has control, and comes to an end, breaks off or
lacks fuel.

1. `Run.moments`: the machine at each moment of a run. A run that lacks fuel has moments too.
2. `abides_along_iff`, `abides_through_iff`: what terms about moments say.
3. `run?_bind`, `moments_bind`: the result and the moments of two runs one after the other;
   `run?_onBreak`, `moments_onBreak`: those of a run with something done at its break.
-/

namespace BlockFlow

variable {K : Kit} {α β : Type}

namespace Run

/-- The machine at each moment of a run, in order. -/
def moments : Run K α → Machine K → List (Machine K)
  | .done _, _ => []
  | .broken _, _ => []
  | .exhausted, _ => []
  | .look next, s => moments (next s) s
  | .put s next, _ => moments next s
  | .moment next, s => s :: moments next s

variable {I J B B' : Machine K → Prop} {Q R : α → Machine K → Prop} {s : Machine K}

theorem abides_along_iff {r : Run K α} :
    r.Abides (.along I B) Q s ↔ (∀ m ∈ r.moments s, I m) ∧
      ∀ x t, s.run? r = some (x, t) → (Terms.along I B).atEnd Q x t := by
  induction r generalizing s with
  | done a => simp [Abides, moments, Machine.run?, Terms.atEnd]
  | broken b => simp [Abides, moments, Machine.run?, Terms.atEnd]
  | exhausted => simp [Abides, moments, Machine.run?]
  | look next ih => simp only [Abides, moments, Machine.run?, ih]
  | put t next ih => simp only [Abides, moments, Machine.run?, ih]
  | moment next ih =>
    simp only [Abides, moments, Machine.run?, ih, List.forall_mem_cons]
    exact and_assoc.symm

theorem Abides.moment {r : Run K α} (h : r.Abides (.along I B) Q s) {m : Machine K}
    (hm : m ∈ r.moments s) : I m :=
  (abides_along_iff.1 h).1 m hm

theorem Abides.monoAlong {r : Run K α} (h : r.Abides (.along I B) Q s) (hI : ∀ m, I m → J m)
    (hB : ∀ t, B t → B' t) (hQ : ∀ a t, Q a t → R a t) : r.Abides (.along J B') R s :=
  h.weaken ⟨And.imp_left (hI _), id, hB _, id⟩ hQ

theorem Abides.monoThrough {r : Run K α} (h : r.Abides (.through I B) Q s) (hI : ∀ m, I m → J m)
    (hB : ∀ t, B t → B' t) (hQ : ∀ a t, Q a t → R a t) : r.Abides (.through J B') R s :=
  h.weaken ⟨And.imp_left (hI _), id, hB _, id⟩ hQ

/-- A run that may rely on what it relies on comes to a result. -/
theorem Abides.of_moments {A : Machine K → Prop} {r : Run K α} (h : r.Abides (.given A) Q s)
    (hA : ∀ m ∈ r.moments s, A m) {x : Except Breakdown α} {t : Machine K}
    (hrun : s.run? r = some (x, t)) : ∃ a, x = .ok a ∧ Q a t := by
  induction r generalizing s with
  | done a =>
    cases hrun
    exact ⟨a, rfl, h⟩
  | broken b => exact h.elim
  | exhausted => cases hrun
  | look next ih => exact ih s h hA hrun
  | put t next ih => exact ih h hA hrun
  | moment next ih =>
    have hA' := List.forall_mem_cons.1 hA
    exact ih (h hA'.1) hA'.2 hrun

theorem abides_through_iff {r : Run K α} :
    r.Abides (.through I B) Q s ↔
      r.Abides (.along I B) Q s ∧ ∃ x t, s.run? r = some (x, t) := by
  induction r generalizing s with
  | done a => exact ⟨fun h => ⟨h, _, _, rfl⟩, And.left⟩
  | broken b => exact ⟨fun h => ⟨h, _, _, rfl⟩, And.left⟩
  | exhausted =>
    refine ⟨False.elim, ?_⟩
    rintro ⟨-, _, _, h⟩
    cases h
  | look next ih => exact ih _
  | put t next ih => exact ih
  | moment next ih => exact (and_congr_right fun _ => ih).trans and_assoc.symm

/-! ## Runs one after the other -/

theorem run?_bind {r : Run K β} {f : β → Run K α} :
    s.run? (r >>= f) =
      match s.run? r with
      | none => none
      | some (.ok b, t) => t.run? (f b)
      | some (.error e, t) => some (.error e, t) := by
  show s.run? (r.andThen f) = _
  induction r generalizing s with
  | done a => rfl
  | broken b => rfl
  | exhausted => rfl
  | look next ih => exact ih _
  | put t next ih => exact ih
  | moment next ih => exact ih

/-- What has a result has one in each of its steps. -/
theorem exists_of_run?_bind {r : Run K β} {f : β → Run K α} {a : α} {t : Machine K}
    (h : s.run? (r >>= f) = some (.ok a, t)) :
    ∃ b u, s.run? r = some (.ok b, u) ∧ u.run? (f b) = some (.ok a, t) := by
  rw [run?_bind] at h
  cases hr : s.run? r with
  | none =>
    rw [hr] at h
    cases h
  | some p =>
    obtain ⟨x, u⟩ := p
    cases x with
    | error e =>
      rw [hr] at h
      cases h
    | ok b =>
      rw [hr] at h
      exact ⟨b, u, rfl, h⟩

theorem run?_manager {f : Manager K → Run K α} :
    s.run? (manager >>= f) = s.run? (f s.manager) := rfl

theorem moments_bind {r : Run K β} {f : β → Run K α} :
    (r >>= f).moments s =
      r.moments s ++ match s.run? r with
        | some (.ok b, t) => (f b).moments t
        | _ => [] := by
  show (r.andThen f).moments s = _
  induction r generalizing s with
  | done a => rfl
  | broken b => rfl
  | exhausted => rfl
  | look next ih => exact ih _
  | put t next ih => exact ih
  | moment next ih => exact congrArg _ ih

/-- The result of a run with something that is done when it breaks off. -/
theorem run?_onBreak {r : Run K α} {last : Run K Unit} :
    s.run? (r.onBreak last) =
      match s.run? r with
      | some (.error b, t) => t.run? (last >>= fun _ => throw b)
      | x => x := by
  show s.run? (r.rescue _) = _
  induction r generalizing s with
  | done a => rfl
  | broken b => rfl
  | exhausted => rfl
  | look next ih => exact ih _
  | put t next ih => exact ih
  | moment next ih => exact ih

theorem moments_onBreak {r : Run K α} {last : Run K Unit} :
    (r.onBreak last).moments s =
      r.moments s ++ match s.run? r with
        | some (.error b, t) => (last >>= fun _ => (throw b : Run K α)).moments t
        | _ => [] := by
  show (r.rescue _).moments s = _
  induction r generalizing s with
  | done a => rfl
  | broken b => rfl
  | exhausted => rfl
  | look next ih => exact ih _
  | put t next ih => exact ih
  | moment next ih => exact congrArg _ ih

end Run

def Machine.after (s : Machine K) (r : Run K α) : Machine K := ((s.run? r).map (·.2)).getD s

theorem Machine.run?_after {s : Machine K} {r : Run K α} (h : (s.run? r).isSome) :
    ∃ x, s.run? r = some (x, s.after r) := by
  obtain ⟨⟨x, t⟩, hrun⟩ := Option.isSome_iff_exists.1 h
  refine ⟨x, ?_⟩
  unfold after
  rw [hrun]
  rfl

end BlockFlow
