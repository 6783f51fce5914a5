import BlockFlow.Engine.Perform

/-!
# Runs under terms

What is said of a run is said of its result, and of its way there: of the moments at which a script
has control, of the changes of the machine, of what is left when it breaks off, and of whether it
may lack fuel. `Terms` are what is asked on the way, and `Run.Abides T Q` says that a run meets them
and that `Q` holds of its result. All that is proved of runs by their shape is proved under some
terms, so there is one rule here for each thing that a run is made of.

1. `Terms`, and those that are made: `Terms.total`, `ending`, `given`, `along`, `through`,
   `changing`.
2. `Run.Abides`, `Abides.weaken`: what is met under terms is met under weaker ones.
3. `abides_bind`, `abides_onBreak`, and a rule for each step of the engine.
4. `Abides.result`: what holds at the end of a run.
-/

namespace BlockFlow

variable {K : Kit} {α β : Type}

/-! ## Terms -/

/-- What is asked of a run on its way. At a moment and at a change this is said of what is asked of
all that comes after. -/
structure Terms (K : Kit) where
  atMoment : Machine K → Prop → Prop := fun _ P => P
  atChange : Machine K → Machine K → Prop → Prop := fun _ _ P => P
  broken : Breakdown → Machine K → Prop
  exhausted : Prop
  atMoment_mono : ∀ {s : Machine K} {P P' : Prop}, (P → P') → atMoment s P → atMoment s P' := by
    exact id
  atChange_mono : ∀ {s t : Machine K} {P P' : Prop},
    (P → P') → atChange s t P → atChange s t P' := by exact id

namespace Terms

/-- A run comes to a result. -/
@[reducible]
def total : Terms K where
  broken _ _ := False
  exhausted := False

/-- `B` holds if a run breaks off. -/
@[reducible]
def ending (B : Machine K → Prop) : Terms K where
  broken _ := B
  exhausted := True

/-- Nothing is asked of a run but what is asked of its result. -/
@[reducible]
def free : Terms K := ending fun _ => True

/-- A run does not break off, as long as `A` holds at each of its moments. -/
@[reducible]
def given (A : Machine K → Prop) : Terms K where
  atMoment s P := A s → P
  broken _ _ := False
  exhausted := True
  atMoment_mono h hP hA := h (hP hA)

/-- `I` holds at each moment of a run, and `B` if it breaks off. -/
@[reducible]
def along (I B : Machine K → Prop) : Terms K where
  atMoment s P := I s ∧ P
  broken _ := B
  exhausted := True
  atMoment_mono h := And.imp_right h

/-- `I` holds at each moment of a run, which comes to an end, and `B` if it breaks off there. -/
@[reducible]
def through (I B : Machine K → Prop) : Terms K where
  atMoment s P := I s ∧ P
  broken _ := B
  exhausted := False
  atMoment_mono h := And.imp_right h

/-- `R` holds of each change of a run, and `B` if it breaks off. -/
@[reducible]
def changing (R : Machine K → Machine K → Prop) (B : Machine K → Prop) : Terms K where
  atChange s t P := R s t ∧ P
  broken _ := B
  exhausted := True
  atChange_mono h := And.imp_right h

/-- The same terms, but for a run that breaks off. -/
@[reducible]
def breaking (T : Terms K) (B : Breakdown → Machine K → Prop) : Terms K := { T with broken := B }

/-- Terms that ask no less than other ones. -/
structure Implies (T T' : Terms K) : Prop where
  atMoment {s : Machine K} {P : Prop} (h : T.atMoment s P) : T'.atMoment s P
  atChange {s t : Machine K} {P : Prop} (h : T.atChange s t P) : T'.atChange s t P
  broken {b : Breakdown} {s : Machine K} (h : T.broken b s) : T'.broken b s
  exhausted (h : T.exhausted) : T'.exhausted

theorem Implies.refl (T : Terms K) : T.Implies T := ⟨id, id, id, id⟩

end Terms

namespace Run

/-- A run that begins with a machine meets terms, and `Q` holds of its result if it comes to one. -/
def Abides (T : Terms K) (Q : α → Machine K → Prop) : Run K α → Machine K → Prop
  | .done a, s => Q a s
  | .broken b, s => T.broken b s
  | .exhausted, _ => T.exhausted
  | .look next, s => Abides T Q (next s) s
  | .put t next, s => T.atChange s t (Abides T Q next t)
  | .moment next, s => T.atMoment s (Abides T Q next s)

variable {T T' : Terms K} {Q R : α → Machine K → Prop} {s : Machine K}

theorem Abides.weaken {r : Run K α} (h : r.Abides T Q s) (hT : T.Implies T')
    (hQ : ∀ a t, Q a t → R a t) : r.Abides T' R s := by
  induction r generalizing s with
  | done a => exact hQ a s h
  | broken b => exact hT.broken h
  | exhausted => exact hT.exhausted h
  | look next ih => exact ih s h
  | put t next ih => exact hT.atChange (T.atChange_mono ih h)
  | moment next ih => exact hT.atMoment (T.atMoment_mono ih h)

theorem Abides.mono {r : Run K α} (h : r.Abides T Q s) (hQ : ∀ a t, Q a t → R a t) :
    r.Abides T R s :=
  h.weaken (.refl T) hQ

/-- Nothing is asked on the way, and of the result what holds of every one. -/
theorem abides_free {r : Run K α} (hQ : ∀ a t, Q a t) : r.Abides .free Q s := by
  induction r generalizing s with
  | done a => exact hQ a s
  | broken | exhausted => trivial
  | look next ih => exact ih s
  | put t next ih => exact ih
  | moment next ih => exact ih

/-! ## Runs one after the other -/

@[simp]
theorem abides_pure {a : α} : (pure a : Run K α).Abides T Q s ↔ Q a s := Iff.rfl

@[simp]
theorem abides_throw {b : Breakdown} : (throw b : Run K α).Abides T Q s ↔ T.broken b s := Iff.rfl

@[simp]
theorem abides_outOfFuel : (outOfFuel : Run K α).Abides T Q s ↔ T.exhausted := Iff.rfl

@[simp]
theorem abides_bind {r : Run K β} {f : β → Run K α} :
    (r >>= f).Abides T Q s ↔ r.Abides T (fun b t => (f b).Abides T Q t) s := by
  show (r.andThen f).Abides T Q s ↔ _
  induction r generalizing s with
  | done a => rfl
  | broken b => rfl
  | exhausted => rfl
  | look next ih => exact ih _
  | put t next ih => exact ⟨T.atChange_mono ih.1, T.atChange_mono ih.2⟩
  | moment next ih => exact ⟨T.atMoment_mono ih.1, T.atMoment_mono ih.2⟩

@[simp]
theorem abides_discard {r : Run K β} {R : PUnit → Machine K → Prop} :
    (discard r).Abides T R s ↔ r.Abides T (fun _ t => R () t) s := by
  show (_ <$> r).Abides T R s ↔ _
  rw [map_eq_pure_bind]
  exact abides_bind

/-- What is done when a run breaks off is asked for then. -/
theorem abides_onBreak {r : Run K α} {last : Run K Unit} :
    (r.onBreak last).Abides T Q s ↔
      r.Abides (T.breaking fun b t => last.Abides T (fun _ u => T.broken b u) t) Q s := by
  show (r.rescue _).Abides T Q s ↔ _
  induction r generalizing s with
  | done a => rfl
  | broken b => exact abides_bind
  | exhausted => rfl
  | look next ih => exact ih _
  | put t next ih => exact ⟨T.atChange_mono ih.1, T.atChange_mono ih.2⟩
  | moment next ih => exact ⟨T.atMoment_mono ih.1, T.atMoment_mono ih.2⟩

theorem Abides.onBreakThen {r : Run K α} {last : Run K Unit}
    {B : Breakdown → Machine K → Prop} (h : r.Abides (T.breaking B) Q s)
    (hlast : ∀ b t, B b t → last.Abides T (fun _ u => T.broken b u) t) :
    (r.onBreak last).Abides T Q s :=
  abides_onBreak.2 (h.weaken ⟨id, id, hlast _ _, id⟩ fun _ _ hQ => hQ)

/-- A run that does not break off does nothing at its break. -/
theorem Abides.onBreak {r : Run K α} (h : r.Abides T Q s) (last : Run K Unit)
    (hT : ∀ b t, ¬ T.broken b t := by exact fun _ _ h => h) : (r.onBreak last).Abides T Q s :=
  Abides.onBreakThen h fun _ _ hb => absurd hb (hT _ _)

/-! ## The steps of the engine -/

section Steps

variable {U : Unit → Machine K → Prop}

@[simp]
theorem abides_pause : pause.Abides T U s ↔ T.atMoment s (U () s) := Iff.rfl

@[simp]
theorem abides_manager {Q : Manager K → Machine K → Prop} :
    manager.Abides T Q s ↔ Q s.manager s := Iff.rfl

@[simp]
theorem abides_host {Q : Host → Machine K → Prop} : host.Abides T Q s ↔ Q s.host s := Iff.rfl

@[simp]
theorem abides_onHost {f : Host → α × Host} :
    (onHost f).Abides T Q s ↔
      T.atChange s { s with host := (f s.host).2 }
        (Q (f s.host).1 { s with host := (f s.host).2 }) := Iff.rfl

@[simp]
theorem abides_modifyManager {f : Manager K → Manager K} :
    (modifyManager f).Abides T U s ↔
      T.atChange s { s with manager := f s.manager } (U () { s with manager := f s.manager }) :=
  Iff.rfl

@[simp]
theorem abides_modifyEntry {id : BlockId} {f : Entry K → Entry K} :
    (modifyEntry id f).Abides T U s ↔
      T.atChange s { s with manager.blocks := s.manager.blocks.modify id f }
        (U () { s with manager.blocks := s.manager.blocks.modify id f }) := Iff.rfl

@[simp]
theorem abides_record {e : Event K} :
    (record e).Abides T U s ↔
      T.atChange s { s with events := e :: s.events } (U () { s with events := e :: s.events }) :=
  Iff.rfl

@[simp]
theorem abides_commit {e : Event K} {f : Manager K → Manager K} :
    (commit e f).Abides T U s ↔
      T.atChange s { s with manager := f s.manager, events := e :: s.events }
        (U () { s with manager := f s.manager, events := e :: s.events }) := Iff.rfl

@[simp]
theorem abides_notify {n : Notice} :
    (notify n).Abides T U s ↔
      T.atChange s { s with events := .notice n :: s.events }
        (U () { s with events := .notice n :: s.events }) := Iff.rfl

@[simp]
theorem abides_erase {id : BlockId} :
    (erase id).Abides T U s ↔
      T.atChange s { s with manager.blocks := s.manager.blocks.erase id }
        (U () { s with manager.blocks := s.manager.blocks.erase id }) := Iff.rfl

@[simp]
theorem abides_release {serial : Nat} {c : K.Contents} :
    (release serial c).Abides T U s ↔
      T.atChange s { s with events := .released serial :: s.events }
        (T.atChange { s with events := .released serial :: s.events }
          { s with host := K.release c s.host, events := .released serial :: s.events }
          (U () { s with host := K.release c s.host, events := .released serial :: s.events })) :=
  Iff.rfl

@[simp]
theorem abides_refuse {ε : Type} {n : Notice} {e : ε} {Q : Except ε α → Machine K → Prop} :
    (refuse n e).Abides T Q s ↔
      T.atChange s { s with events := .notice n :: s.events }
        (Q (.error e) { s with events := .notice n :: s.events }) := Iff.rfl

/-- What is to hold after a success holds after a refusal. -/
theorem abides_refuse_of_ok {ε : Type} {n : Notice} {e : ε} {a : α} {P : Machine K → Prop} :
    (refuse n e).Abides .free (fun x t => x = .ok a → P t) s := by
  rw [abides_refuse]
  intro h
  cases h

end Steps

/-! ## Scripts -/

section Scripts

variable {S : Type} {T : Terms K} {call : Call K} {n : Nat} {leave : S → Run K Unit} {c : S}
  {s : Machine K}

theorem abides_runScript_call {r : Request K.Factory K.Remark}
    {next : r.Answer → Script K.Factory K.Remark S α} {Q : α × S → Machine K → Prop}
    (h : (perform call n r).Abides T
      (fun x t => T.atMoment t ((runScript call n leave c (next x)).Abides T Q t)) s)
    (hT : ∀ b t, ¬ T.broken b t := by exact fun _ _ h => h) :
    (runScript call n leave c (.call r next)).Abides T Q s := by
  unfold runScript
  rw [abides_bind]
  refine (h.onBreak _ hT).mono fun x t ht => ?_
  rw [abides_bind]
  exact ht

theorem abides_runScript_bind {x : Script K.Factory K.Remark S α}
    {f : α → Script K.Factory K.Remark S β} {Q : β × S → Machine K → Prop}
    (h : (runScript call n leave c x).Abides T
      (fun p t => (runScript call n leave p.2 (f p.1)).Abides T Q t) s) :
    (runScript call n leave c (x >>= f)).Abides T Q s := by
  show Abides T Q (runScript call n leave c (x.andThen f)) s
  rw [runScript_andThen, abides_bind]
  exact h

theorem abides_runScript_notify {note : Notice} {next : Unit → Script K.Factory K.Remark S α}
    {Q : α × S → Machine K → Prop}
    (h : T.atChange s { s with events := .notice note :: s.events }
      (T.atMoment { s with events := .notice note :: s.events }
        ((runScript call n leave c (next ())).Abides T Q
          { s with events := .notice note :: s.events })))
    (hT : ∀ b t, ¬ T.broken b t := by exact fun _ _ h => h) :
    (runScript call n leave c (Script.notify note >>= next)).Abides T Q s :=
  abides_runScript_bind <| abides_runScript_call (r := .notice note) h hT

end Scripts

end Run

/-! ## At the end -/

namespace Terms

/-- What holds at the end of a run that meets terms, and for whose result `Q` holds. -/
def atEnd (T : Terms K) (Q : α → Machine K → Prop) : Except Breakdown α → Machine K → Prop
  | .ok a, s => Q a s
  | .error b, s => T.broken b s

/-- Terms that ask on the way what they ask of the end, and more if anything. -/
class Asserts (T : Terms K) : Prop where
  of_atMoment {s : Machine K} {P : Prop} : T.atMoment s P → P
  of_atChange {s t : Machine K} {P : Prop} : T.atChange s t P → P

instance asserts_total : (total : Terms K).Asserts := ⟨id, id⟩

variable {I B : Machine K → Prop} {R : Machine K → Machine K → Prop}

instance asserts_ending : (ending B).Asserts := ⟨id, id⟩

instance asserts_along : (along I B).Asserts := ⟨And.right, id⟩

instance asserts_through : (through I B).Asserts := ⟨And.right, id⟩

instance asserts_changing : (changing R B).Asserts := ⟨id, And.right⟩

end Terms

namespace Run

variable {T : Terms K} {Q : α → Machine K → Prop} {s t : Machine K}

theorem Abides.result [hT : T.Asserts] {r : Run K α} (h : r.Abides T Q s) {x : Except Breakdown α}
    (hrun : s.run? r = some (x, t)) : T.atEnd Q x t := by
  induction r generalizing s with
  | done | broken =>
    cases hrun
    exact h
  | exhausted => cases hrun
  | look next ih => exact ih s h hrun
  | put u next ih => exact ih (hT.of_atChange h) hrun
  | moment next ih => exact ih (hT.of_atMoment h) hrun

/-- What holds of a run that breaks off, and of the result of one that does not, holds at the end. -/
theorem Abides.after [T.Asserts] {P : Machine K → Prop} {r : Run K α}
    (h : r.Abides T (fun _ => P) s) {x : Except Breakdown α} (hrun : s.run? r = some (x, t))
    (hB : ∀ b, T.broken b t → P t := by exact fun _ h => h) : P t := by
  have hover := h.result hrun
  cases x with
  | ok a => exact hover
  | error b => exact hB b hover

theorem abides_total_iff {r : Run K α} :
    r.Abides .total Q s ↔ ∃ a t, s.run? r = some (.ok a, t) ∧ Q a t := by
  constructor
  · intro h
    induction r generalizing s with
    | done a => exact ⟨a, s, rfl, h⟩
    | broken | exhausted => exact h.elim
    | look next ih => exact ih s h
    | put t next ih => exact ih h
    | moment next ih => exact ih h
  · rintro ⟨a, t, hrun, hQ⟩
    induction r generalizing s with
    | done =>
      cases hrun
      exact hQ
    | broken | exhausted => cases hrun
    | look next ih => exact ih s hrun
    | put t next ih => exact ih hrun
    | moment next ih => exact ih hrun

/-- What holds when a run comes to a result holds of the result that it comes to. -/
theorem Abides.of_run? {r : Run K α} {x : Except Breakdown α} (h : r.Abides .total Q s)
    (hrun : s.run? r = some (x, t)) : ∃ a, x = .ok a ∧ Q a t := by
  obtain ⟨a, u, hrun', hQ⟩ := abides_total_iff.1 h
  obtain ⟨rfl, rfl⟩ := Prod.mk.inj (Option.some.inj (hrun.symm.trans hrun'))
  exact ⟨a, rfl, hQ⟩

/-- A run comes to a single result. -/
theorem Abides.and [T.Asserts] {R : α → Machine K → Prop} {r : Run K α} (h : r.Abides .total Q s)
    (h' : r.Abides T R s) : r.Abides .total (fun a t => Q a t ∧ R a t) s := by
  obtain ⟨a, t, hrun, ha⟩ := abides_total_iff.1 h
  exact abides_total_iff.2 ⟨a, t, hrun, ha, h'.result hrun⟩

/-- What holds of the result that a run comes to holds of the one that it may come to. -/
theorem Abides.free {r : Run K α} (h : r.Abides .total Q s) : r.Abides .free Q s :=
  h.weaken ⟨id, id, False.elim, False.elim⟩ fun _ _ hQ => hQ

/-- A run that comes to a result relies on nothing. -/
theorem Abides.given {A : Machine K → Prop} {r : Run K α} (h : r.Abides .total Q s) :
    r.Abides (.given A) Q s :=
  h.weaken ⟨fun h _ => h, id, id, False.elim⟩ fun _ _ hQ => hQ

end Run

end BlockFlow
