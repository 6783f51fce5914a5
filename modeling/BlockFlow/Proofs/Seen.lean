import BlockFlow.Proofs.Conduct

/-!
# What is seen of an engine

An engine is asked for one thing after the other. Between these errands it rests, and while it is at
one a script may look at it whenever it has control.

1. `Errand`: what is asked from outside of every hook.
2. `Machine.Rests`, `Machine.Seen`: the machines that an engine comes to between errands, and those
   at the moments of an errand.
3. `Seen.steps`, `Seen.induct`: they are steps away from an engine at its beginning, so whatever
   every step keeps holds of all of them.
-/

namespace BlockFlow

variable {K : Kit}

/-! ## Errands -/

/-- Something that is asked of an engine from outside of every hook. -/
inductive Errand (K : Kit) where
  /-- Requests are made. -/
  | play (n : Nat) (script : Script K.Factory K.Remark Unit Unit)
  /-- The engine comes to its end. -/
  | dispose (n : Nat)

def Errand.run : Errand K → Run K Unit
  | .play n script => Run.play n script
  | .dispose n => Run.dispose n

/-- The machine of an engine of settings on a host, at its beginning. -/
def Machine.fresh (settings : Settings) (host : Host) : Machine K :=
  { manager := .fresh settings, host }

/-! ## Machines between and during errands -/

/-- The machines that an engine comes to between errands. An errand may have broken off. -/
inductive Machine.Rests : Machine K → Prop
  | fresh (settings : Settings) (host : Host) : Machine.Rests (.fresh settings host)
  | after {s t : Machine K} {x : Except Breakdown Unit} (h : s.Rests) (e : Errand K)
    (hrun : s.run? e.run = some (x, t)) : t.Rests

/-- The machines of which something can be seen: between errands, and at the moments of an errand at
which a script has control, whether or not that errand ever comes to an end. -/
inductive Machine.Seen : Machine K → Prop
  | between {s : Machine K} (h : s.Rests) : s.Seen
  | during {s t : Machine K} (h : s.Rests) (e : Errand K) (ht : t ∈ e.run.moments s) : t.Seen

theorem Errand.conducts (e : Errand K) : e.run.Conducts := by
  cases e with
  | play n script => exact Run.conducts_play n script
  | dispose n => exact Run.conducts_dispose n

namespace Machine

variable {s : Machine K}

theorem Rests.steps (h : s.Rests) :
    ∃ settings host, Steps (.fresh settings host) s ∧ s.stack = [] := by
  induction h with
  | fresh settings host => exact ⟨settings, host, .refl, rfl⟩
  | after _ e hrun ih =>
    obtain ⟨settings, host, hsteps, hstack⟩ := ih
    obtain ⟨hgo, hend⟩ := Run.Abides.after (e.conducts.goes hsteps) hrun
    exact ⟨settings, host, hgo, hend.trans hstack⟩

theorem Seen.steps (h : s.Seen) : ∃ settings host, Steps (.fresh settings host) s := by
  cases h with
  | between h =>
    obtain ⟨settings, host, hsteps, -⟩ := h.steps
    exact ⟨settings, host, hsteps⟩
  | during h e hs =>
    obtain ⟨settings, host, hsteps, -⟩ := h.steps
    exact ⟨settings, host, (e.conducts.goes hsteps).moment hs⟩

/-- What holds at the beginning of every engine and is kept by every step holds of all that is
seen. -/
theorem Seen.induct {P : Machine K → Prop} (hfresh : ∀ settings host, P (.fresh settings host))
    (hstep : ∀ s t, P s → Step s t → P t) (h : s.Seen) : P s := by
  obtain ⟨settings, host, hsteps⟩ := h.steps
  exact hsteps.preserve hstep (hfresh settings host)

end Machine

end BlockFlow
