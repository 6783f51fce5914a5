import BlockFlow.Proofs.Origin

/-!
# Blocks before and after a change

All that happens to blocks is that they are noted, bound, added and dropped, one at a time. So what
a block is after a change is known from what it was before: the same instance with the same bindings
or one more, or a new one without any.

1. `Machine.Alters`: what a change may do to blocks; `Accounted.alters`, `Lived.alters`: each change
   of a run or a history does no more.
2. `Machine.Adds`, `Alters.origin`: where a live block comes from.
3. `bindings_of_binds`, `Accounts.of_binds`: a change by which an instance is bound.
-/

namespace BlockFlow

variable {K : Kit} {α : Type}

/-! ## What a change may do -/

/-- What a change may do to blocks. -/
inductive Machine.Alters (u v : Machine K) : Prop
  | keeps (h : u.KeepsBindings v)
  | binds {id : BlockId} {serial : Nat} {b : Binding} (h : Binds id serial b (u, v))
  | drops {id : BlockId} (h : v = u.without id)

theorem Run.Accounted.alters {D : Prop} {r : Run K α} {s : Machine K} (h : r.Accounted D s)
    {p : Change K} (hp : p ∈ r.changes s) : p.1.Alters p.2 := by
  obtain ⟨k, hk⟩ := List.mem_iff_getElem?.1 hp
  cases h _ p (Run.makes_of_getElem? hk) with
  | keeps h => exact .keeps h
  | binds h _ => exact .binds h
  | drops h _ => exact .drops h

namespace Machine

variable {u v : Machine K} {id : BlockId} {e e' : Entry K}

/-- Between two machines a block comes: the others stay as they are, it is the next instance, and it
has no bindings. -/
structure Adds (u v : Machine K) (id : BlockId) (e : Entry K) : Prop where
  absent : u.manager.blocks.get? id = none
  serial : e.serial = u.manager.built
  built : v.manager.built = u.manager.built + 1
  bindings : e.bindings = []
  others {id' : BlockId} (h : id' ≠ id) :
    v.manager.blocks.get? id' = u.manager.blocks.get? id'

/-- A live block after a change that keeps bindings is the instance that it was, with the same
bindings, or it has come. -/
theorem KeepsBindings.origin (h : u.KeepsBindings v) (he' : v.manager.blocks.get? id = some e') :
    (∃ e, u.manager.blocks.get? id = some e ∧ e'.serial = e.serial ∧ e'.bindings = e.bindings) ∨
      u.Adds v id e' := by
  cases h with
  | same h =>
    rw [h.blocks] at he'
    exact .inl ⟨e', he', rfl, rfl⟩
  | noted id' f hf h =>
    rw [h] at he'
    rcases Keyed.of_get?_modify he' with ⟨rfl, e, he, rfl⟩ | ⟨-, he⟩
    · exact .inl ⟨e, he, hf e⟩
    · exact .inl ⟨e', he, rfl, rfl⟩
  | added id' e hnew hserial hbindings h =>
    rw [h] at he'
    rcases Keyed.of_get?_insert he' with ⟨rfl, rfl⟩ | ⟨-, he⟩
    · refine .inr ⟨hnew, hserial, congrArg Manager.built h, hbindings, fun hne => ?_⟩
      rw [h]
      exact (Keyed.get?_insert ..).trans (if_neg hne.symm)
    · exact .inl ⟨e', he, rfl, rfl⟩

/-- A live block after a change is the instance that it was, with the bindings that it had or one
more, or it has come. -/
theorem Alters.origin (h : u.Alters v) (he' : v.manager.blocks.get? id = some e') :
    (∃ e, u.manager.blocks.get? id = some e ∧ e'.serial = e.serial ∧
      (e'.bindings = e.bindings ∨
        ∃ b, Binds id e.serial b (u, v) ∧ e'.bindings = e.bindings ++ [b])) ∨
      u.Adds v id e' := by
  cases h with
  | keeps h =>
    refine (h.origin he').imp_left ?_
    rintro ⟨e, he, hserial, hbindings⟩
    exact ⟨e, he, hserial, .inl hbindings⟩
  | binds h =>
    have hbinds := h
    obtain ⟨e, htakes, rfl, hv⟩ := h
    obtain rfl : v = u.bound _ _ := hv
    rcases Keyed.of_get?_modify he' with ⟨rfl, e₀, he₀, rfl⟩ | ⟨-, he⟩
    · obtain rfl := Option.some.inj (htakes.live.symm.trans he₀)
      exact .inl ⟨e, he₀, rfl, .inr ⟨_, hbinds, rfl⟩⟩
    · exact .inl ⟨e', he, rfl, .inl rfl⟩
  | drops h =>
    rw [h] at he'
    exact .inl ⟨e', (Keyed.of_get?_erase he').2, rfl, .inl rfl⟩

/-- An instance that is bound has one binding more, and no other block has. -/
theorem bindings_of_binds {id' : BlockId} {serial : Nat} {b : Binding}
    (h : Binds id serial b (u, v)) (he : u.manager.blocks.get? id' = some e)
    (he' : v.manager.blocks.get? id' = some e') :
    e'.bindings = if id' = id then e.bindings ++ [b] else e.bindings := by
  obtain ⟨_, -, -, hv⟩ := h
  obtain rfl : v = u.bound _ _ := hv
  rcases Keyed.of_get?_modify he' with ⟨rfl, e₁, he₁, rfl⟩ | ⟨hne, he₁⟩
  · obtain rfl := Option.some.inj (he.symm.trans he₁)
    rw [if_pos rfl]
    rfl
  · obtain rfl := Option.some.inj (he.symm.trans he₁)
    rw [if_neg hne]

theorem exists_of_binds {serial : Nat} {b : Binding} (h : Binds id serial b (u, v)) :
    ∃ e e', u.manager.blocks.get? id = some e ∧ v.manager.blocks.get? id = some e' ∧
      e'.bindings = e.bindings ++ [b] := by
  have hbinds := h
  obtain ⟨e, htakes, -, hv⟩ := h
  obtain rfl : v = u.bound _ _ := hv
  have he' : (u.bound id b).manager.blocks.get? id = some ((Hook.bind b.port b.dest).mark e) := by
    show (Keyed.modify ..).get? id = _
    rw [Keyed.get?_modify, if_pos rfl, htakes.live]
    rfl
  exact ⟨e, _, htakes.live, he', rfl⟩

theorem Alters.built_le (h : u.Alters v) : u.manager.built ≤ v.manager.built := by
  cases h with
  | keeps h =>
    cases h with
    | same h => exact Nat.le_of_eq h.built.symm
    | noted _ _ _ h => exact Nat.le_of_eq (congrArg Manager.built h).symm
    | added _ _ _ _ _ h =>
      have hbuilt : v.manager.built = u.manager.built + 1 := congrArg Manager.built h
      omega
  | binds h =>
    obtain ⟨_, _, _, hv⟩ := h
    exact Nat.le_of_eq (congrArg (·.manager.built) hv).symm
  | drops h => exact Nat.le_of_eq (congrArg (·.manager.built) h).symm

theorem Alters.settings_eq (h : u.Alters v) : v.manager.settings = u.manager.settings := by
  cases h with
  | keeps h =>
    cases h with
    | same h => exact h.settings
    | noted _ _ _ h => exact (congrArg Manager.settings h :)
    | added _ _ _ _ _ h => exact (congrArg Manager.settings h :)
  | binds h =>
    obtain ⟨_, _, _, hv⟩ := h
    exact congrArg (·.manager.settings) hv
  | drops h => exact congrArg (·.manager.settings) h

end Machine

/-- A change by which an instance is bound comes from the operation that binds it. -/
theorem Run.Accounts.of_binds {r : Run K α} {s : Machine K} {qs : List (Change K)} {p : Change K}
    {D : Prop} (h : r.Accounts D s qs p) {id : BlockId} {serial : Nat} {b : Binding}
    (hb : Binds id serial b p) :
    ∃ n, Part (Run.bind (callHook n) id b.port b.dest) r s qs p.1 := by
  obtain ⟨e, e', he, he', hmore⟩ := Machine.exists_of_binds hb
  have hlength : e'.bindings ≠ e.bindings := by
    rw [hmore]
    simp
  cases h with
  | keeps h =>
    rcases h.origin he' with ⟨e₁, he₁, -, hsame⟩ | hnew
    · obtain rfl := Option.some.inj (he.symm.trans he₁)
      exact absurd hsame hlength
    · exact absurd (he.symm.trans hnew.absent) (Option.some_ne_none e)
  | @binds id' _ b' n h hpart =>
    have hbound := Machine.bindings_of_binds h he he'
    by_cases hid : id = id'
    · subst hid
      rw [if_pos rfl, hmore, List.append_cancel_left_eq, List.cons.injEq] at hbound
      rw [hbound.1]
      exact ⟨n, hpart⟩
    · rw [if_neg hid] at hbound
      exact absurd hbound hlength
  | drops h _ =>
    rw [h] at he'
    obtain rfl := Option.some.inj (he.symm.trans (Keyed.of_get?_erase he').2)
    exact absurd rfl hlength

theorem Machine.Lived.alters {s : Machine K} {ps : List (Change K)} (h : s.Lived ps) :
    ∀ p ∈ ps, p.1.Alters p.2 :=
  h.changes fun e s _ hp => (e.accounted s).alters hp

end BlockFlow
