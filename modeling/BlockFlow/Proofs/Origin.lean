import BlockFlow.Proofs.Dealing

/-!
# Where changes of bindings come from

The bindings of a block are changed by one operation only, and so is the presence of blocks but for
their addition. Here each change of a run is traced back to the operation that makes it, however
deep inside of other operations, scripts and hooks that operation is done.

1. `Run.Part`: another run that a run comes to do; `Part.makes`: the run makes its changes.
2. `Machine.KeepsBindings`: changes that leave all bindings alone; `Binds`: those by which a block
   is bound; `Run.Accounts`: what a change comes from.
3. `Run.Accounted`: all changes of a run come from somewhere; a rule for each thing that a run is
   made of, and each operation.
4. `accounted_callHook`, `Errand.accounted`: all that the engine does is accounted for.
-/

namespace BlockFlow

variable {K : Kit} {α β γ : Type}

/-! ## Parts of a run -/

namespace Run

/-- When a run begins with a machine, another one begins with a machine after some changes. -/
inductive Part (op : Run K γ) :
    {α : Type} → Run K α → Machine K → List (Change K) → Machine K → Prop
  | whole {s : Machine K} : Part op op s [] s
  | first {α β : Type} {r : Run K α} {f : α → Run K β} {s u : Machine K} {qs : List (Change K)}
    (h : Part op r s qs u) : Part op (r >>= f) s qs u
  | next {α β : Type} {r : Run K α} {f : α → Run K β} {s t u : Machine K} {a : α}
    {qs : List (Change K)} (hrun : s.run? r = some (.ok a, t)) (h : Part op (f a) t qs u) :
    Part op (r >>= f) s (r.changes s ++ qs) u
  | tried {α : Type} {r : Run K α} {last : Run K Unit} {s u : Machine K} {qs : List (Change K)}
    (h : Part op r s qs u) : Part op (r.onBreak last) s qs u
  | atBreak {α : Type} {r : Run K α} {last : Run K Unit} {s t u : Machine K} {b : Breakdown}
    {qs : List (Change K)} (hrun : s.run? r = some (.error b, t)) (h : Part op last t qs u) :
    Part op (r.onBreak last) s (r.changes s ++ qs) u

variable {s t u : Machine K} {qs rs : List (Change K)} {p : Change K}

theorem makes_onBreak {r : Run K α} {last : Run K Unit} :
    (r.onBreak last).Makes s qs p ↔ r.Makes s qs p ∨
      ∃ b t rs, s.run? r = some (.error b, t) ∧ qs = r.changes s ++ rs ∧ last.Makes t rs p := by
  show (r.rescue _).Makes s qs p ↔ _
  induction r generalizing s qs with
  | done a =>
    constructor
    · exact False.elim
    · rintro (h | ⟨_, _, _, hrun, -⟩)
      · exact h
      · cases hrun
  | broken b =>
    show (last >>= fun _ => (throw b : Run K α)).Makes s qs p ↔ _
    rw [makes_bind]
    constructor
    · rintro (h | ⟨_, _, _, _, _, h⟩)
      · exact .inr ⟨b, s, qs, rfl, rfl, h⟩
      · exact h.elim
    · rintro (h | ⟨_, _, rs, hrun, rfl, h⟩)
      · exact h.elim
      · cases hrun
        exact .inl h
  | exhausted =>
    constructor
    · exact False.elim
    · rintro (h | ⟨_, _, _, hrun, -⟩)
      · exact h
      · cases hrun
  | look next ih => exact ih _
  | put v next ih =>
    constructor
    · rintro (h | ⟨rs, rfl, h⟩)
      · exact .inl (.inl h)
      · rcases ih.1 h with h' | ⟨b, t, rs', hrun, rfl, h'⟩
        · exact .inl (.inr ⟨rs, rfl, h'⟩)
        · exact .inr ⟨b, t, rs', hrun, rfl, h'⟩
    · rintro ((h | ⟨rs, rfl, h⟩) | ⟨b, t, rs', hrun, rfl, h⟩)
      · exact .inl h
      · exact .inr ⟨rs, rfl, ih.2 (.inl h)⟩
      · exact .inr ⟨_, rfl, ih.2 (.inr ⟨b, t, rs', hrun, rfl, h⟩)⟩
  | moment next ih => exact ih

theorem Part.makes {op : Run K γ} {r : Run K α} (h : Part op r s qs u) (hp : op.Makes u rs p) :
    r.Makes s (qs ++ rs) p := by
  induction h with
  | whole => exact hp
  | first _ ih => exact makes_bind.2 (.inl (ih hp))
  | next hrun _ ih => exact makes_bind.2 (.inr ⟨_, _, _, hrun, List.append_assoc _ _ _, ih hp⟩)
  | tried _ ih => exact makes_onBreak.2 (.inl (ih hp))
  | atBreak hrun _ ih =>
    exact makes_onBreak.2 (.inr ⟨_, _, _, hrun, List.append_assoc _ _ _, ih hp⟩)

/-- The changes of a part are among those of the run. -/
theorem Part.mem_changes {op : Run K γ} {r : Run K α} (h : Part op r s qs u)
    (hp : p ∈ op.changes u) : p ∈ r.changes s := by
  obtain ⟨k, hk⟩ := List.mem_iff_getElem?.1 hp
  exact (h.makes (makes_of_getElem? hk)).mem p (List.mem_append_right _ (.head _))

/-- A part begins with the machine to which the changes before it lead. -/
theorem Part.path {op : Run K γ} {r : Run K α} (h : Part op r s qs u) :
    Path s qs u ∧ qs <+: r.changes s := by
  induction h with
  | whole => exact ⟨.nil, List.nil_prefix⟩
  | first _ ih =>
    obtain ⟨hpath, hle⟩ := ih
    rw [changes_bind]
    exact ⟨hpath, hle.trans (List.prefix_append _ _)⟩
  | next hrun _ ih =>
    obtain ⟨hpath, hle⟩ := ih
    rw [changes_bind, hrun]
    exact ⟨(path_changes hrun).append hpath, (List.prefix_append_right_inj _).2 hle⟩
  | tried _ ih =>
    obtain ⟨hpath, hle⟩ := ih
    rw [changes_onBreak]
    exact ⟨hpath, hle.trans (List.prefix_append _ _)⟩
  | atBreak hrun _ ih =>
    obtain ⟨hpath, hle⟩ := ih
    rw [changes_onBreak, hrun]
    refine ⟨(path_changes hrun).append hpath, (List.prefix_append_right_inj _).2 ?_⟩
    dsimp only
    rw [changes_bind]
    exact hle.trans (List.prefix_append _ _)

theorem Part.manager {op : Run K γ} {f : Manager K → Run K α} (h : Part op (f s.manager) s qs u) :
    Part op (Run.manager >>= f) s qs u :=
  .next rfl h

theorem Makes.unique {r : Run K α} {p' : Change K} (h : r.Makes s qs p) (h' : r.Makes s qs p') :
    p = p' := by
  obtain ⟨rest, h⟩ := makes_iff.1 h
  obtain ⟨rest', h'⟩ := makes_iff.1 h'
  rw [← h, List.append_assoc, List.append_assoc] at h'
  exact (List.cons.inj (List.append_cancel_left h')).1.symm

end Run

/-! ## Kinds of changes -/

namespace Machine

/-- After a change the live blocks are the instances that they were and have the bindings that they
had; there may be one block more, which is new and has none. -/
inductive KeepsBindings (u v : Machine K) : Prop
  | same (h : u.manager.SameBlocks v.manager)
  | noted (id : BlockId) (f : Entry K → Entry K)
    (hf : ∀ e, (f e).serial = e.serial ∧ (f e).bindings = e.bindings)
    (h : v.manager = { u.manager with blocks := u.manager.blocks.modify id f })
  | added (id : BlockId) (e : Entry K) (hnew : u.manager.blocks.get? id = none)
    (hserial : e.serial = u.manager.built) (hbindings : e.bindings = [])
    (h : v.manager =
      { u.manager with blocks := u.manager.blocks.insert id e, built := u.manager.built + 1 })

/-- A block is live and inside of no hook, and a binding of it may lead to its destination. -/
structure Takes (u : Machine K) (id : BlockId) (e : Entry K) (b : Binding) : Prop where
  live : u.manager.blocks.get? id = some e
  idle : e.contents ≠ none
  admitted : Run.mayLeadTo u.manager b.dest = true

def bound (u : Machine K) (id : BlockId) (b : Binding) : Machine K :=
  u.marked id (.bind b.port b.dest)

end Machine

/-- By a change an instance that is live under a number is bound. -/
def Binds (id : BlockId) (serial : Nat) (b : Binding) (p : Change K) : Prop :=
  ∃ e, p.1.Takes id e b ∧ e.serial = serial ∧ p.2 = p.1.bound id b

namespace Run

/-- A run comes to delete a block, or to clear all of them. -/
def Removes (r : Run K α) (s : Machine K) : Prop :=
  ∃ qs u, (∃ id, Part (del id) r s qs u) ∨ ∃ n m, Part (clear (callHook n) m) r s qs u

/-- What a change that a run makes after others comes from. Blocks may be dropped only if `D` holds,
or if the run comes to delete a block or to clear all of them. -/
inductive Accounts (D : Prop) (r : Run K α) (s : Machine K) (qs : List (Change K)) (p : Change K) :
    Prop
  | keeps (h : p.1.KeepsBindings p.2)
  | binds {id : BlockId} {serial : Nat} {b : Binding} {n : Nat} (h : Binds id serial b p)
    (hpart : Part (Run.bind (callHook n) id b.port b.dest) r s qs p.1)
  | drops {id : BlockId} (h : p.2 = p.1.without id) (hD : D ∨ r.Removes s)

/-- All changes of a run that begins with a machine come from somewhere. -/
def Accounted (D : Prop) (r : Run K α) (s : Machine K) : Prop :=
  ∀ qs p, r.Makes s qs p → r.Accounts D s qs p

/-! ## Rules -/

section Rules

variable {D : Prop} {s t : Machine K} {qs rs : List (Change K)} {p : Change K}

/-- What a change of a run comes from, it comes from in each run that has the parts of that run. -/
theorem Accounts.lift {r : Run K α} {r' : Run K β} (h : r.Accounts D t rs p)
    (qs : List (Change K))
    (hpart : ∀ {γ : Type} {op : Run K γ} {rs : List (Change K)} {u : Machine K},
      Part op r t rs u → Part op r' s (qs ++ rs) u) : r'.Accounts D s (qs ++ rs) p := by
  cases h with
  | keeps h => exact .keeps h
  | binds h hbind => exact .binds h (hpart hbind)
  | drops h hD =>
    refine .drops h (hD.imp_right ?_)
    rintro ⟨rs, u, ⟨id, hdel⟩ | ⟨n, m, hclear⟩⟩
    · exact ⟨_, u, .inl ⟨id, hpart hdel⟩⟩
    · exact ⟨_, u, .inr ⟨n, m, hpart hclear⟩⟩

theorem Accounted.bind {r : Run K α} {f : α → Run K β} (hr : r.Accounted D s)
    (hf : ∀ a t, s.run? r = some (.ok a, t) → (f a).Accounted D t) : (r >>= f).Accounted D s := by
  intro qs p hmakes
  rcases makes_bind.1 hmakes with h | ⟨a, t, rs, hrun, rfl, h⟩
  · exact (hr qs p h).lift [] .first
  · exact (hf a t hrun _ p h).lift _ (.next hrun)

theorem Accounted.onBreak {r : Run K α} {last : Run K Unit} (hr : r.Accounted D s)
    (hlast : ∀ b t, s.run? r = some (.error b, t) → last.Accounted D t) :
    (r.onBreak last).Accounted D s := by
  intro qs p hmakes
  rcases makes_onBreak.1 hmakes with h | ⟨b, t, rs, hrun, rfl, h⟩
  · exact (hr qs p h).lift [] .tried
  · exact (hlast b t hrun _ p h).lift _ (.atBreak hrun)

theorem accounted_pure (a : α) : (pure a : Run K α).Accounted D s := fun _ _ h => h.elim

theorem accounted_throw (b : Breakdown) : (throw b : Run K α).Accounted D s := fun _ _ h => h.elim

theorem accounted_outOfFuel : (outOfFuel : Run K α).Accounted D s := fun _ _ h => h.elim

theorem accounted_manager : (manager : Run K (Manager K)).Accounted D s := fun _ _ h => h.elim

theorem accounted_pause : (pause : Run K Unit).Accounted D s := fun _ _ h => h.elim

theorem accounted_manager_bind {f : Manager K → Run K β} (h : (f s.manager).Accounted D s) :
    (manager >>= f).Accounted D s :=
  accounted_manager.bind fun _ _ hrun => by
    cases hrun
    exact h

theorem Accounted.discard {r : Run K α} (h : r.Accounted D s) : (discard r).Accounted D s := by
  show (_ <$> r).Accounted D s
  rw [map_eq_pure_bind]
  exact h.bind fun _ _ _ => accounted_pure _

theorem makes_modifyGet {f : Machine K → α × Machine K} (h : (modifyGet f : Run K α).Makes s qs p) :
    p = (s, (f s).2) := by
  rcases h with ⟨-, rfl⟩ | ⟨_, -, hdone⟩
  · rfl
  · exact hdone.elim

/-- One change that keeps bindings. -/
theorem accounted_modifyGet {f : Machine K → α × Machine K} (h : s.KeepsBindings (f s).2) :
    (modifyGet f : Run K α).Accounted D s := by
  intro qs p hmakes
  obtain rfl := makes_modifyGet hmakes
  exact .keeps h

theorem accounted_record (e : Event K) : (record e).Accounted D s :=
  accounted_modifyGet (.same ⟨rfl, rfl, rfl⟩)

theorem accounted_notify (n : Notice) : (notify n : Run K Unit).Accounted D s :=
  accounted_record _

theorem accounted_onHost (f : Host → α × Host) : (onHost f : Run K α).Accounted D s :=
  accounted_modifyGet (.same ⟨rfl, rfl, rfl⟩)

theorem accounted_modifyManager {f : Manager K → Manager K}
    (hf : ∀ m : Manager K, m.SameBlocks (f m)) : (modifyManager f).Accounted D s :=
  accounted_modifyGet (.same (hf s.manager))

theorem accounted_commit (e : Event K) {f : Manager K → Manager K}
    (hf : ∀ m : Manager K, m.SameBlocks (f m)) : (commit e f).Accounted D s :=
  accounted_modifyGet (.same (hf s.manager))

theorem accounted_modifyEntry (id : BlockId) {f : Entry K → Entry K}
    (hf : ∀ e, (f e).serial = e.serial ∧ (f e).bindings = e.bindings) :
    (modifyEntry id f).Accounted D s :=
  accounted_modifyGet (.noted id f hf rfl)

theorem accounted_erase (hD : D) (id : BlockId) : (erase id : Run K Unit).Accounted D s := by
  intro qs p hmakes
  obtain rfl := makes_modifyGet hmakes
  exact .drops rfl (.inl hD)

theorem accounted_refuse {ε : Type} (n : Notice) (e : ε) :
    (refuse n e : Run K (Except ε α)).Accounted D s :=
  (accounted_notify n).bind fun _ _ _ => accounted_pure _

/-- A run that comes to delete a block or to clear all of them needs no other leave to do so. -/
theorem Accounted.of_removes {r : Run K α} (h : r.Accounted True s) (hr : r.Removes s) :
    r.Accounted D s := by
  intro qs p hp
  cases h qs p hp with
  | keeps h => exact .keeps h
  | binds h hpart => exact .binds h hpart
  | drops h _ => exact .drops h (.inr hr)

end Rules

/-! ## Operations on blocks -/

section Operations

variable {D : Prop} {s t : Machine K}

theorem accounted_withIdle {id : BlockId} {f : Entry K → K.Contents → Run K (Except EngineError α)}
    (h : ∀ e c, s.manager.blocks.get? id = some e → e.contents = some c → (f e c).Accounted D s) :
    (withIdle id f).Accounted D s := by
  unfold withIdle
  refine accounted_manager_bind ?_
  split
  · exact accounted_refuse _ _
  next e he =>
  split
  · exact accounted_refuse _ _
  next c hc => exact h e c he hc

theorem accounted_add (id : BlockId) (type : String) : (add id type : Run K _).Accounted D s := by
  unfold add
  refine accounted_manager_bind ?_
  split
  · exact accounted_refuse _ _
  split
  · exact accounted_refuse _ _
  next hnew =>
  cases s.manager.factories.get? type with
  | none => exact accounted_refuse _ _
  | some factory =>
    refine (accounted_onHost _).bind fun made t hrun => ?_
    cases hrun
    cases (K.build factory s.host).1 with
    | none => exact accounted_refuse _ _
    | some c =>
      have hnew' : s.manager.blocks.get? id = none := by simpa [Keyed.contains] using hnew
      refine (accounted_record _).bind fun _ t hrun => ?_
      cases hrun
      refine (accounted_notify _).bind fun _ t hrun => ?_
      cases hrun
      refine Accounted.bind ?_ fun _ _ _ => accounted_pure _
      let e : Entry K := { serial := s.manager.built, type, contents := some c }
      exact accounted_modifyGet (.added id e hnew' rfl rfl rfl)

theorem accounted_release (serial : Nat) (c : K.Contents) : (release serial c).Accounted D s :=
  (accounted_record _).bind fun _ _ _ => accounted_onHost _

theorem accounted_del (id : BlockId) : (del id : Run K _).Accounted D s := by
  have hdel : (del id : Run K _).Accounted True s := by
    refine accounted_withIdle fun e c _ _ => ?_
    cases e.state with
    | started => exact accounted_refuse _ _
    | stopped =>
      refine accounted_manager_bind ?_
      split
      · exact accounted_refuse _ _
      refine (accounted_notify _).bind fun _ _ _ => ?_
      refine (accounted_erase trivial id).bind fun _ _ _ => ?_
      refine (accounted_record _).bind fun _ _ _ => (accounted_release _ _).bind fun _ _ _ => ?_
      exact accounted_pure _
  exact hdel.of_removes ⟨[], s, .inl ⟨id, .whole⟩⟩

theorem accounted_force (hD : D) (id : BlockId) : (force id : Run K Unit).Accounted D s := by
  refine (accounted_notify _).bind fun _ t _ => accounted_manager_bind ?_
  refine (accounted_erase hD id).bind fun _ _ _ => ?_
  split
  · split
    · exact accounted_release _ _
    · exact accounted_pure _
  · exact accounted_pure _

variable {n : Nat}

/-- Something that leaves the bindings of a block alone is noted about it and told, then its hook is
called. -/
theorem accounted_mark {id : BlockId} {note : Notice}
    (hcall : ∀ id hook s, (callHook (K := K) n id hook).Accounted D s) (hook : Hook)
    (hhook : ∀ e : Entry K, (hook.mark e).bindings = e.bindings) (a : α) :
    (do
      modifyEntry id hook.mark
      notify note
      discard (callHook n id hook)
      return a : Run K α).Accounted D s := by
  refine (accounted_modifyEntry id fun e => ⟨hook.serial_mark e, hhook e⟩).bind fun _ _ _ => ?_
  refine (accounted_notify _).bind fun _ _ _ => ?_
  exact (hcall _ _ _).discard.bind fun _ _ _ => accounted_pure _

theorem accounted_start (hcall : ∀ id hook s, (callHook (K := K) n id hook).Accounted D s)
    (id : BlockId) : (start (callHook n) id : Run K _).Accounted D s := by
  refine accounted_withIdle fun e c _ _ => ?_
  dsimp only
  cases e.state with
  | started => exact (accounted_notify _).bind fun _ _ _ => accounted_pure _
  | stopped => exact accounted_mark hcall .start (fun _ => rfl) _

theorem accounted_stop (hcall : ∀ id hook s, (callHook (K := K) n id hook).Accounted D s)
    (id : BlockId) : (stop (callHook n) id : Run K _).Accounted D s := by
  refine accounted_withIdle fun e c _ _ => ?_
  dsimp only
  cases e.state with
  | stopped => exact (accounted_notify _).bind fun _ _ _ => accounted_pure _
  | started => exact accounted_mark hcall .stop (fun _ => rfl) _

theorem accounted_conf (hcall : ∀ id hook s, (callHook (K := K) n id hook).Accounted D s)
    (id : BlockId) (entry : String) : (conf (callHook n) id entry : Run K _).Accounted D s :=
  accounted_withIdle fun _ _ _ _ => (accounted_notify _).bind fun _ _ _ =>
    (hcall _ _ _).discard.bind fun _ _ _ => accounted_pure _

/-- What is left to do when a block has been bound: it is told so. -/
def tell (call : Call K) (id : BlockId) (b : Binding) : Run K (Except EngineError Unit) := do
  notify (.bound id b.port b.dest)
  discard (call id (.bind b.port b.dest))
  return .ok ()

section Connect

variable {call : Call K} {id : BlockId} {e : Entry K} {b : Binding} {qs rs : List (Change K)}
  {p : Change K} {u : Machine K}

/-- A block that takes a binding is bound with the first change. -/
theorem makes_connect (h : s.Takes id e b) :
    (Run.bind call id b.port b.dest).Makes s qs p ↔
      qs = [] ∧ p = (s, s.bound id b) ∨
        ∃ rs, qs = (s, s.bound id b) :: rs ∧ (tell call id b).Makes (s.bound id b) rs p := by
  obtain ⟨c, hc⟩ := Option.ne_none_iff_exists'.1 h.idle
  unfold Run.bind
  rw [makes_manager, if_pos h.admitted]
  unfold withIdle
  rw [makes_manager]
  simp only [h.live, hc]
  exact Iff.rfl

theorem run?_connect (h : s.Takes id e b) :
    s.run? (Run.bind call id b.port b.dest) = (s.bound id b).run? (tell call id b) := by
  obtain ⟨c, hc⟩ := Option.ne_none_iff_exists'.1 h.idle
  unfold Run.bind
  rw [run?_manager, if_pos h.admitted]
  unfold withIdle
  rw [run?_manager]
  simp only [h.live, hc]
  rfl

/-- Nothing is bound that does not take the binding. -/
theorem run?_connect_of_not (call : Call K) (h : ¬ ∃ e, s.Takes id e b) : ∃ err note,
    s.run? (Run.bind call id b.port b.dest) =
      some (.ok (.error err), { s with events := .notice note :: s.events }) := by
  unfold Run.bind
  rw [run?_manager]
  split
  · next hadm =>
    unfold withIdle
    rw [run?_manager]
    split
    · exact ⟨_, _, rfl⟩
    next e he =>
    split
    · exact ⟨_, _, rfl⟩
    next c hc =>
    refine absurd ⟨e, he, ?_, hadm⟩ h
    rw [hc]
    exact Option.some_ne_none c
  · exact ⟨_, _, rfl⟩

theorem Part.connect {op : Run K γ} (h : s.Takes id e b)
    (hpart : Part op (tell call id b) (s.bound id b) rs u) :
    Part op (Run.bind call id b.port b.dest) s ((s, s.bound id b) :: rs) u := by
  obtain ⟨c, hc⟩ := Option.ne_none_iff_exists'.1 h.idle
  unfold Run.bind
  refine .manager ?_
  rw [if_pos h.admitted]
  unfold withIdle
  refine .manager ?_
  simp only [h.live, hc]
  exact .next rfl hpart

end Connect

theorem accounted_connect (hcall : ∀ id hook s, (callHook (K := K) n id hook).Accounted D s)
    (id : BlockId) (port : Port) (dest : BlockId) :
    (Run.bind (callHook n) id port dest : Run K _).Accounted D s := by
  by_cases h : ∃ e, s.Takes id e ⟨port, dest⟩
  · obtain ⟨e, h⟩ := h
    intro qs p hmakes
    rcases (makes_connect h).1 hmakes with ⟨rfl, rfl⟩ | ⟨_, rfl, hrest⟩
    · exact .binds ⟨e, h, rfl, rfl⟩ .whole
    · have htell : (tell (callHook n) id ⟨port, dest⟩).Accounted D (s.bound id ⟨port, dest⟩) :=
        (accounted_notify _).bind fun _ _ _ => (hcall _ _ _).discard.bind fun _ _ _ =>
          accounted_pure _
      exact (htell _ p hrest).lift [_] (.connect h)
  · refine accounted_manager_bind ?_
    split
    · next hadm =>
      refine accounted_withIdle fun e c he hc => absurd ⟨e, he, ?_, hadm⟩ h
      rw [hc]
      exact Option.some_ne_none c
    · exact accounted_refuse _ _

theorem accounted_clear (hcall : ∀ id hook s, (callHook (K := K) n id hook).Accounted True s)
    (m : Nat) : (clear (callHook n) m : Run K _).Accounted D s := by
  have hclear : (clear (callHook n) m : Run K _).Accounted True s := by
    induction m generalizing s with
    | zero => exact accounted_outOfFuel
    | succ m ih =>
      refine accounted_manager_bind ?_
      split
      · exact accounted_pure _
      refine (accounted_stop hcall _).discard.bind fun _ _ _ => ?_
      refine (accounted_del _).bind fun x _ _ => ?_
      cases x with
      | ok _ => exact ih
      | error _ => exact (accounted_force trivial _).bind fun _ _ _ => ih
  exact hclear.of_removes ⟨[], s, .inr ⟨n, m, .whole⟩⟩

end Operations

/-! ## All that is done for a request -/

section Requests

variable {D : Prop} {s t : Machine K} {n : Nat}

theorem accounted_watch (w : Watch) : (watch w : Run K _).Accounted D s := by
  refine accounted_manager_bind ?_
  split
  · split
    · exact accounted_refuse _ _
    · refine Accounted.bind (accounted_commit _ fun _ => ⟨rfl, rfl, rfl⟩) fun _ _ _ => ?_
      exact (accounted_notify _).bind fun _ _ _ => accounted_pure _
  · exact accounted_refuse _ _

theorem accounted_arm (owner : BlockId) (tid : TimerId) (delay : Duration) (arg : Payload) :
    (arm owner tid delay arg : Run K _).Accounted D s := by
  refine accounted_manager_bind ?_
  split
  · refine (accounted_onHost _).bind fun now _ _ => ?_
    cases now.later? delay with
    | none => exact accounted_refuse _ _
    | some expiration =>
      refine (accounted_notify _).bind fun _ _ _ => ?_
      refine Accounted.bind (accounted_commit _ fun _ => ⟨rfl, rfl, rfl⟩) fun _ _ _ => ?_
      exact accounted_pure _
  · exact accounted_refuse _ _

theorem accounted_disarm (owner : BlockId) (tid : TimerId) :
    (disarm owner tid : Run K Unit).Accounted D s := by
  refine accounted_manager_bind ?_
  dsimp only
  split
  · exact (accounted_notify _).bind fun _ _ _ => accounted_modifyManager fun _ => ⟨rfl, rfl, rfl⟩
  · exact accounted_modifyManager fun _ => ⟨rfl, rfl, rfl⟩

theorem accounted_popThen {now : Instant} {r : Run K α} {f : Timer → Run K α}
    (hr : ∀ s, r.Accounted D s) (hf : ∀ x s, (f x).Accounted D s) :
    (popThen now r f).Accounted D s := by
  refine accounted_manager_bind ?_
  dsimp only
  split
  · exact hr s
  · exact Accounted.bind (accounted_modifyManager fun _ => ⟨rfl, rfl, rfl⟩) fun _ t _ => hf _ t

theorem accounted_direct (hcall : ∀ id hook s, (callHook (K := K) n id hook).Accounted True s)
    (m : Nat) {r : Request K.Factory K.Remark} (hr : r.IsDirect) :
    (perform (callHook n) m r).Accounted D s := by
  cases r with
  | clear => exact accounted_clear hcall m
  | watch w => exact accounted_watch w
  | unwatch w =>
    exact (accounted_notify _).bind fun _ _ _ => accounted_modifyManager fun _ => ⟨rfl, rfl, rfl⟩
  | act a =>
    refine (accounted_onHost (·.act a)).bind fun outcome _ _ => ?_
    cases outcome with
    | noInstant => exact accounted_throw _
    | _ => exact accounted_pure _
  | listen path => exact accounted_onHost (·.listen path)
  | accept fd => exact accounted_onHost (·.accept fd)
  | receive fd => exact accounted_onHost (·.receive fd)
  | transmit fd bytes => exact accounted_onHost (·.transmit fd bytes)
  | close fd => exact accounted_onHost fun h => ((), h.close fd)
  | removeFile path => exact accounted_onHost (·.removeFile path)
  | _ => exact hr.elim

theorem Accounted.mono {r : Run K α} (h : r.Accounted False s) : r.Accounted D s := by
  intro qs p hp
  cases h qs p hp with
  | keeps h => exact .keeps h
  | binds h hpart => exact .binds h hpart
  | drops h hD => exact .drops h (hD.imp_left False.elim)

theorem Operates.accounted (hcall : ∀ id hook s, (callHook (K := K) n id hook).Accounted False s)
    {r : Run K α} (hr : Operates (callHook n) Request.IsDirect r) (s : Machine K) :
    r.Accounted False s := by
  induction hr generalizing s with
  | pure a => exact accounted_pure a
  | outOfFuel => exact accounted_outOfFuel
  | bind _ _ ihr ihf => exact (ihr s).bind fun a t _ => ihf a t
  | manager => exact accounted_manager
  | host => exact fun _ _ h => h.elim
  | notify n => exact accounted_notify n
  | remark m => exact accounted_record _
  | readClock => exact accounted_onHost _
  | wait limit => exact accounted_onHost _
  | aside hf => exact accounted_modifyManager fun m => (hf m).toSameBlocks
  | arm owner tid delay arg => exact accounted_arm owner tid delay arg
  | disarm owner tid => exact accounted_disarm owner tid
  | disarmAll => exact accounted_modifyManager fun _ => ⟨rfl, rfl, rfl⟩
  | popThen _ _ ihr ihf => exact accounted_popThen ihr ihf
  | add id type => exact accounted_add id type
  | start id => exact accounted_start hcall id
  | stop id => exact accounted_stop hcall id
  | connect id port dest => exact accounted_connect hcall id port dest
  | conf id entry => exact accounted_conf hcall id entry
  | del id => exact accounted_del id
  | plain id _ => exact hcall _ _ s
  | direct m hr => exact accounted_direct (fun id hook s => (hcall id hook s).mono) m hr

/-! ## Scripts, hooks and errands -/

theorem accounted_runScript (hcall : ∀ id hook s, (callHook (K := K) n id hook).Accounted False s)
    (m : Nat) {S : Type} {leave : S → Run K Unit} (hleave : ∀ c t, (leave c).Accounted False t)
    (script : Script K.Factory K.Remark S α) (c : S) :
    (runScript (callHook n) m leave c script).Accounted False s := by
  induction script generalizing c s with
  | done a => exact accounted_pure _
  | keep c' next ih => exact ih c'
  | call r next ih =>
    have hr := Operates.accounted hcall (operates_perform m r id) s
    refine (hr.onBreak fun b t _ => hleave c t).bind fun x t _ => ?_
    exact accounted_pause.bind fun _ _ _ => ih x c

theorem accounted_leave (id : BlockId) (serial : Nat) (c : K.Contents) :
    (leave id serial c).Accounted D s := by
  refine (accounted_record _).bind fun _ _ _ => accounted_manager_bind ?_
  split
  · split
    · exact accounted_modifyEntry id fun _ => ⟨rfl, rfl⟩
    · exact accounted_release _ _
  · exact accounted_release _ _

theorem accounted_callHook (n : Nat) (id : BlockId) (hook : Hook) (s : Machine K) :
    (callHook n id hook).Accounted False s := by
  induction n generalizing id hook s with
  | zero => exact accounted_outOfFuel
  | succ n ih =>
    refine accounted_manager_bind ?_
    split
    · exact accounted_pure _
    next e he =>
    split
    · exact (accounted_notify _).bind fun _ _ _ => accounted_pure _
    next c hc =>
    have haway : (modifyEntry id ({ · with contents := none }) : Run K Unit).Accounted False s :=
      accounted_modifyEntry id fun _ => ⟨rfl, rfl⟩
    refine haway.bind fun _ _ _ => (accounted_record _).bind fun _ _ _ => ?_
    refine Accounted.bind accounted_pause fun _ _ _ => ?_
    refine Accounted.bind ?_ fun r _ _ => ?_
    · exact accounted_runScript ih n (fun c t => accounted_leave id e.serial c) _ c
    · exact (accounted_leave id e.serial r.2).bind fun _ _ _ => accounted_pure _

theorem accounted_abandonAll (hD : D) (blocks : List (BlockId × Entry K)) :
    (abandonAll blocks).Accounted D s := by
  induction blocks generalizing s with
  | nil => exact accounted_pure _
  | cons block blocks ih =>
    obtain ⟨id, e⟩ := block
    refine Accounted.bind ?_ fun _ _ _ => ih
    refine (accounted_erase hD id).bind fun _ _ _ => ?_
    split
    · exact accounted_release _ _
    · exact accounted_pure _

end Requests

end Run

open Run in
theorem Errand.accounted (e : Errand K) (s : Machine K) : e.run.Accounted False s := by
  cases e with
  | play n script =>
    refine Accounted.bind ?_ fun _ _ _ => accounted_pure _
    exact accounted_runScript (accounted_callHook n) n (fun _ _ => accounted_pure _) script ()
  | dispose n =>
    have hall : (Run.dispose n).Accounted True s := by
      refine Accounted.bind (accounted_modifyManager fun _ => ⟨rfl, rfl, rfl⟩) fun _ _ _ => ?_
      refine Accounted.bind ?_ fun _ _ _ => accounted_modifyManager fun _ => ⟨rfl, rfl, rfl⟩
      refine Accounted.onBreak ?_ fun _ _ _ =>
        accounted_manager_bind (accounted_abandonAll trivial _)
      exact accounted_clear (fun id hook s => (accounted_callHook n id hook s).mono) n
    have hclear : Part (clear (callHook n) n) (Run.dispose n) s _ (s.withTimers .empty) :=
      .next rfl (.first (.tried .whole))
    exact hall.of_removes ⟨_, _, .inr ⟨n, n, hclear⟩⟩

end BlockFlow
