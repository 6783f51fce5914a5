import BlockFlow.Proofs.Moments

/-!
# The changes along a run

A run changes the machine again and again. What is to hold of every single change is said here as
what holds at every moment was said before, so that a fact about two machines next to each other can
be followed through a whole run.

1. `Run.changes`: the changes of a run, in order, each with the machine before it and the one after.
2. `abides_changing_iff`: what terms about changes say.
3. `Abides.keeps`: what each change keeps is kept by the run; `exists_change_of_lost`: what does not
   hold any more at the end was lost by one of the changes.
-/

namespace BlockFlow.Run

variable {K : Kit} {α β : Type}

/-- The changes of a run, in order: the machine before each one and the machine after it. -/
def changes : Run K α → Machine K → List (Machine K × Machine K)
  | .done _, _ => []
  | .broken _, _ => []
  | .exhausted, _ => []
  | .look next, s => changes (next s) s
  | .put t next, s => (s, t) :: changes next t
  | .moment next, s => changes next s

variable {R R' : Machine K → Machine K → Prop} {B B' : Machine K → Prop}
  {Q Q' : α → Machine K → Prop} {s t : Machine K}

theorem abides_changing_iff {r : Run K α} :
    r.Abides (.changing R B) Q s ↔ (∀ p ∈ r.changes s, R p.1 p.2) ∧
      ∀ x t, s.run? r = some (x, t) → (Terms.changing R B).atEnd Q x t := by
  induction r generalizing s with
  | done a => simp [Abides, changes, Machine.run?, Terms.atEnd]
  | broken b => simp [Abides, changes, Machine.run?, Terms.atEnd]
  | exhausted => simp [Abides, changes, Machine.run?]
  | look next ih => simp only [Abides, changes, Machine.run?, ih]
  | put t next ih =>
    simp only [Abides, changes, Machine.run?, ih, List.forall_mem_cons]
    exact and_assoc.symm
  | moment next ih => simp only [Abides, changes, Machine.run?, ih]

theorem Abides.change {r : Run K α} (h : r.Abides (.changing R B) Q s)
    {p : Machine K × Machine K} (hp : p ∈ r.changes s) : R p.1 p.2 :=
  (abides_changing_iff.1 h).1 p hp

theorem Abides.monoChanging {r : Run K α} (h : r.Abides (.changing R B) Q s)
    (hR : ∀ u v, R u v → R' u v) (hB : ∀ t, B t → B' t) (hQ : ∀ a t, Q a t → Q' a t) :
    r.Abides (.changing R' B') Q' s :=
  h.weaken ⟨id, And.imp_left (hR _ _), hB _, id⟩ hQ

/-- What each change keeps holds before and after each of them, and at the end. -/
theorem Abides.keeps {r : Run K α} (h : r.Abides (.changing R B) Q s) {P : Machine K → Prop}
    (hP : ∀ u v, R u v → P u → P v) (hs : P s) :
    r.Abides (.changing (fun u v => R u v ∧ P u ∧ P v) fun t => B t ∧ P t)
      (fun a t => Q a t ∧ P t) s := by
  induction r generalizing s with
  | done | broken => exact ⟨h, hs⟩
  | exhausted => trivial
  | look next ih => exact ih _ h hs
  | put t next ih =>
    obtain ⟨hst, hnext⟩ := h
    exact ⟨⟨hst, hs, hP s t hst hs⟩, ih hnext (hP s t hst hs)⟩
  | moment next ih => exact ih h hs

/-- What does not hold any more at the end of a run was lost by one of its changes. -/
theorem exists_change_of_lost {r : Run K α} {x : Except Breakdown α} {P : Machine K → Prop}
    (hrun : s.run? r = some (x, t)) (hs : P s) (ht : ¬ P t) :
    ∃ p ∈ r.changes s, P p.1 ∧ ¬ P p.2 := by
  induction r generalizing s with
  | done | broken =>
    cases hrun
    exact absurd hs ht
  | exhausted => cases hrun
  | look next ih => exact ih _ hrun hs
  | put u next ih =>
    by_cases hu : P u
    · obtain ⟨p, hp, hlost⟩ := ih hrun hu
      exact ⟨p, .tail _ hp, hlost⟩
    · exact ⟨(s, u), .head _, hs, hu⟩
  | moment next ih => exact ih hrun hs

end BlockFlow.Run
