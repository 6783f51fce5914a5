import BlockFlow.Proofs.Blind

/-!
# Runs that differ in notices

Two runs may tell of different things and do the same all the same: hooks are called alike, and the
same is left of the manager and the host. As the record is never read, such a difference has no
consequences, wherever on the way it comes.

1. `Machine.hushed p`: a machine without the notices that `p` picks.
2. `Run.Concurs p Q`: two runs that pass through the same machines and come to the same machine but
   for such notices, with results between which `Q` holds.
3. `Blind.concurs`: what is blind concurs with itself. A rule for each thing that a run is made of; a
   notice counts on its own side alone.
-/

namespace BlockFlow

variable {K : Kit} {α β γ δ : Type}

/-! ## Machines -/

def Event.isNoticeOf (p : Notice → Bool) : Event K → Bool
  | .notice n => p n
  | _ => false

namespace Machine

/-- The machine as if some notices had not been made. -/
def hushed (p : Notice → Bool) (s : Machine K) : Machine K :=
  { s with events := s.events.filter (!·.isNoticeOf p) }

variable {p : Notice → Bool} {s t : Machine K}

theorem hushed_notice {n : Notice} (hn : p n) (s : Machine K) :
    ({ s with events := .notice n :: s.events } : Machine K).hushed p = s.hushed p := by
  unfold hushed
  rw [List.filter_cons, if_neg (by simp [Event.isNoticeOf, hn])]

theorem manager_of_hushed (h : s.hushed p = t.hushed p) : s.manager = t.manager :=
  congrArg (·.manager) h

theorem host_of_hushed (h : s.hushed p = t.hushed p) : s.host = t.host := congrArg (·.host) h

/-- The same happens to two machines that are the same but for notices. -/
theorem hushed_onto (h : s.hushed p = t.hushed p) (u : Machine K) :
    (u.onto s.events).hushed p = (u.onto t.events).hushed p := by
  have hevents : s.events.filter _ = t.events.filter _ := congrArg (·.events) h
  unfold Machine.onto hushed
  rw [List.filter_append, List.filter_append, hevents]

end Machine

/-! ## Runs -/

namespace Run

/-- Two runs have come to the same machine but for some notices, with results between which `Q`
holds or by the same breakdown; or both lack fuel. -/
inductive Meets (p : Notice → Bool) (Q : α → β → Prop) :
    Option (Except Breakdown α × Machine K) → Option (Except Breakdown β × Machine K) → Prop
  | none : Meets p Q none none
  | ok {a : α} {b : β} {t t' : Machine K} (hab : Q a b) (ht : t.hushed p = t'.hushed p) :
    Meets p Q (some (.ok a, t)) (some (.ok b, t'))
  | error (e : Breakdown) {t t' : Machine K} (ht : t.hushed p = t'.hushed p) :
    Meets p Q (some (.error e, t)) (some (.error e, t'))

/-- A run from one machine and another run from another machine do the same but for some notices:
they pass through the same machines and come to the same machine, and `Q` holds between their
results. -/
structure Concurs (p : Notice → Bool) (Q : α → β → Prop) (r : Run K α) (s : Machine K)
    (r' : Run K β) (s' : Machine K) : Prop where
  result : Meets p Q (s.run? r) (s'.run? r')
  moments : (r.moments s).map (·.hushed p) = (r'.moments s').map (·.hushed p)

variable {p : Notice → Bool} {Q Q' : α → β → Prop} {R : γ → δ → Prop} {s s' : Machine K}

section Meets

variable {x : Option (Except Breakdown α × Machine K)} {y : Option (Except Breakdown β × Machine K)}
  {z : Option (Except Breakdown γ × Machine K)}

theorem Meets.mono (h : Meets p Q x y) (hQ : ∀ a b, Q a b → Q' a b) : Meets p Q' x y := by
  cases h with
  | none => exact .none
  | ok hab ht => exact .ok (hQ _ _ hab) ht
  | error e ht => exact .error e ht

theorem Meets.symm (h : Meets p Q x y) : Meets p (fun b a => Q a b) y x := by
  cases h with
  | none => exact .none
  | ok hab ht => exact .ok hab ht.symm
  | error e ht => exact .error e ht.symm

theorem Meets.trans {Q' : β → γ → Prop} (h : Meets p Q x y) (h' : Meets p Q' y z) :
    Meets p (fun a c => ∃ b, Q a b ∧ Q' b c) x z := by
  cases h with
  | none =>
    cases h'
    exact .none
  | ok hab ht =>
    cases h' with
    | ok hbc ht' => exact .ok ⟨_, hab, hbc⟩ (ht.trans ht')
  | error e ht =>
    cases h' with
    | error _ ht' => exact .error e (ht.trans ht')

/-- What two runs come to, if the first of them comes to something. -/
theorem Meets.exists_of_some {t : Machine K} {a : α} (h : Meets p Q (some (.ok a, t)) y) :
    ∃ b t', y = some (.ok b, t') ∧ Q a b ∧ t.hushed p = t'.hushed p := by
  cases h with
  | ok hab ht => exact ⟨_, _, rfl, hab, ht⟩

end Meets

variable {r : Run K α} {r' : Run K β}

namespace Concurs

theorem mono (h : r.Concurs p Q s r' s') (hQ : ∀ a b, Q a b → Q' a b) : r.Concurs p Q' s r' s' :=
  ⟨h.result.mono hQ, h.moments⟩

theorem symm (h : r.Concurs p Q s r' s') : r'.Concurs p (fun b a => Q a b) s' r s :=
  ⟨h.result.symm, h.moments.symm⟩

theorem trans {Q' : β → γ → Prop} {r'' : Run K γ} {s'' : Machine K} (h : r.Concurs p Q s r' s')
    (h' : r'.Concurs p Q' s' r'' s'') :
    r.Concurs p (fun a c => ∃ b, Q a b ∧ Q' b c) s r'' s'' :=
  ⟨h.result.trans h'.result, h.moments.trans h'.moments⟩

/-! ## The parts of a run -/

/-- Runs that go on from the results of two runs, where the first of these has its result. -/
theorem bind_of_run? {f : α → Run K γ} {g : β → Run K δ} (h : r.Concurs p Q s r' s')
    (hf : ∀ a b t t', s.run? r = some (.ok a, t) → Q a b → t.hushed p = t'.hushed p →
      (f a).Concurs p R t (g b) t') : (r >>= f).Concurs p R s (r' >>= g) s' := by
  obtain ⟨hresult, hmoments⟩ := h
  constructor
  · rw [run?_bind, run?_bind]
    generalize s.run? r = x, s'.run? r' = y at hresult hf
    cases hresult with
    | none => exact .none
    | ok hab ht => exact (hf _ _ _ _ rfl hab ht).result
    | error e ht => exact .error e ht
  · rw [moments_bind, moments_bind, List.map_append, List.map_append, hmoments]
    generalize s.run? r = x, s'.run? r' = y at hresult hf
    cases hresult with
    | none => rfl
    | ok hab ht => exact congrArg _ (hf _ _ _ _ rfl hab ht).moments
    | error e ht => rfl

theorem bind {f : α → Run K γ} {g : β → Run K δ} (h : r.Concurs p Q s r' s')
    (hf : ∀ a b t t', Q a b → t.hushed p = t'.hushed p → (f a).Concurs p R t (g b) t') :
    (r >>= f).Concurs p R s (r' >>= g) s' :=
  h.bind_of_run? fun a b t t' _ => hf a b t t'

/-- What is looked up on the host. -/
theorem before_host {f : Host → Run K β} (h : r.Concurs p Q s (f s'.host) s') :
    r.Concurs p Q s (host >>= f) s' :=
  ⟨h.result, h.moments⟩

theorem after_onHost {f : γ → Run K α} {g : Host → γ × Host}
    (h : (f (g s.host).1).Concurs p Q { s with host := (g s.host).2 } r' s') :
    (onHost g >>= f).Concurs p Q s r' s' :=
  ⟨h.result, h.moments⟩

end Concurs

theorem concurs_pure {a : α} {b : β} (hab : Q a b) (hs : s.hushed p = s'.hushed p) :
    (pure a : Run K α).Concurs p Q s (pure b) s' :=
  ⟨.ok hab hs, rfl⟩

/-- A notice that is left out counts for nothing. -/
theorem Concurs.after_notice {n : Notice} (hn : p n) (hs : s.hushed p = s'.hushed p)
    (h : ∀ t : Machine K, t.hushed p = s'.hushed p → r.Concurs p Q t r' s') :
    (notify n >>= fun _ => r).Concurs p Q s r' s' := by
  have hnotice := (Machine.hushed_notice hn s).trans hs
  exact ⟨(h _ hnotice).result, (h _ hnotice).moments⟩

/-- What never looks at the record does the same whatever was left out of it. -/
theorem Blind.concurs {r : Run K α} (h : r.Blind) (hs : s.hushed p = s'.hushed p) :
    r.Concurs p Eq s r s' := by
  let u : Machine K := { s with events := [] }
  have hu : s' = u.onto s'.events := by
    show s' = ⟨s.manager, s.host, s'.events⟩
    rw [Machine.manager_of_hushed hs, Machine.host_of_hushed hs]
  have hresult := h.result u
  have hmoments := h.moments u
  rw [hu]
  show Concurs p Eq r (u.onto s.events) r (u.onto s'.events)
  constructor
  · rw [hresult, hresult]
    cases u.run? r with
    | none => exact .none
    | some result =>
      obtain ⟨x, t⟩ := result
      cases x with
      | ok a => exact .ok rfl (Machine.hushed_onto hs t)
      | error e => exact .error e (Machine.hushed_onto hs t)
  · rw [hmoments, hmoments, List.map_map, List.map_map]
    exact List.map_congr_left fun t _ => Machine.hushed_onto hs t

end Run

end BlockFlow
