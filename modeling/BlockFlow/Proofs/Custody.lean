import BlockFlow.Proofs.Alternation
import BlockFlow.Proofs.Dealing
import BlockFlow.Proofs.Reentrancy

/-!
# Who has an instance

An instance belongs to the engine while it is live. When its block is deleted it goes to the factory
that is registered for its type then, once and never again; when it is dropped by force no factory
ever gets it.

1. `Deletes`, `Forced`: the changes by which an instance leaves.
2. `Custody`: what becomes of every instance, over all changes since the beginning.
3. `Dealing.keepsCustody`: it holds of all dealings.
4. `Machine.Tended`: what may have happened to an engine; `custody`: what became of its instances.
-/

namespace BlockFlow

open Run

variable {K : Kit}

/-! ## Leaving -/

/-- By a change an instance is not live any more. -/
def Leaves (serial : Nat) (q : Change K) : Prop := q.1.IsLive serial ∧ ¬ q.2.IsLive serial

/-- By a change an instance leaves because its block is deleted: one that is stopped and inside of
no hook, while a factory is registered for its type and nothing but its entry has a handle to it. -/
def Deletes (serial : Nat) (type : String) (factory : K.Factory) (q : Change K) : Prop :=
  ∃ id e, q.1.Yields id e factory ∧ e.serial = serial ∧ e.type = type ∧ q.2 = q.1.without id

/-- By a change an instance leaves because its block is dropped by force. -/
def Forced (serial : Nat) (q : Change K) : Prop :=
  ∃ id e, q.1.Forces id e ∧ e.serial = serial ∧ q.2 = q.1.without id

/-- What becomes of instances by changes that follow one after the other. -/
structure Custody (qs : List (Change K)) : Prop where
  /-- What a factory gets is the instance that left with the change before, because its block was
  deleted, and the factory is the one that was registered for its type then. -/
  returned {i : Nat} {q : Change K} {serial : Nat} {type : String} {factory : K.Factory}
    (hq : qs[i]? = some q) (h : Returns serial type factory q) :
    ∃ j p, i = j + 1 ∧ qs[j]? = some p ∧ Deletes serial type factory p
  /-- No instance is handed to a factory twice. -/
  once {i j : Nat} {p q : Change K} {serial : Nat} {type type' : String}
    {factory factory' : K.Factory} (hp : qs[i]? = some p) (hq : qs[j]? = some q)
    (h : Returns serial type factory p) (h' : Returns serial type' factory' q) : i = j
  /-- An instance is not live when it is handed to a factory, and never afterwards. -/
  dead {i j : Nat} {p q : Change K} {serial : Nat} {type : String} {factory : K.Factory}
    (hp : qs[i]? = some p) (h : Returns serial type factory p) (hij : i ≤ j)
    (hq : qs[j]? = some q) : ¬ q.1.IsLive serial ∧ ¬ q.2.IsLive serial
  /-- An instance that leaves is handed to the factory of its type with the next change, or it is
  dropped by force and no factory gets it, neither before nor afterwards. -/
  leaves {i : Nat} {q : Change K} {serial : Nat} (hq : qs[i]? = some q) (h : Leaves serial q) :
    (∃ type factory p, Deletes serial type factory q ∧ qs[i + 1]? = some p ∧
      Returns serial type factory p) ∨
    Forced serial q ∧ ∀ p ∈ qs, ∀ type factory, ¬ Returns serial type factory p

/-! ## Dealings -/

theorem mem_drop_of_getElem? {γ : Type} {l : List γ} {k j : Nat} {x : γ} (h : l[j]? = some x)
    (hkj : k ≤ j) : x ∈ l.drop k :=
  List.mem_iff_getElem?.2 ⟨j - k, by rw [List.getElem?_drop, Nat.add_sub_cancel' hkj, h]⟩

namespace Machine

def Bounded (s : Machine K) : Prop := ∀ n, s.IsLive n → n < s.manager.built

namespace Bounded

variable {s u : Machine K}

theorem keep (h : s.Bounded) (hk : s.Keeps u) : u.Bounded := by
  intro n hn
  rcases hk.comes hn with hs | ⟨-, hlt⟩
  · exact Nat.lt_of_lt_of_le (h n hs) hk.built
  · exact hlt

theorem without (h : s.Bounded) (id : BlockId) : (s.without id).Bounded :=
  fun n hn => h n hn.of_without

end Bounded

end Machine

/-- The instance that leaves with a block is that of the block. -/
theorem Machine.serial_of_leaves {s : Machine K} {id : BlockId} {e : Entry K} {serial : Nat}
    (he : s.manager.blocks.get? id = some e) (h : Leaves serial (s, s.without id)) :
    e.serial = serial := by
  obtain ⟨⟨id', e', he', hserial⟩, hgone⟩ := h
  by_cases hid : id = id'
  · subst hid
    obtain rfl := Option.some.inj (he.symm.trans he')
    exact hserial
  · exact absurd ⟨id', e', by simp [Machine.without, Keyed.get?_erase, hid, he'], hserial⟩ hgone

/-- An instance is handed to a factory by one change only, from under one type. -/
theorem Returns.eq {serial serial' : Nat} {type type' : String} {factory factory' : K.Factory}
    {q : Change K} (h : Returns serial type factory q) (h' : Returns serial' type' factory' q) :
    serial = serial' ∧ type = type' ∧ factory = factory' := by
  have heq := (List.cons.inj (h.symm.trans h')).1
  cases heq
  exact ⟨rfl, rfl, rfl⟩

theorem not_returns_without {s : Machine K} {id : BlockId} {serial : Nat} {type : String}
    {factory : K.Factory} : ¬ Returns serial type factory (s, s.without id) :=
  Machine.not_returns_of_events_eq rfl

theorem returns_handed (s : Machine K) (e : Entry K) (factory : K.Factory) :
    Returns e.serial e.type factory (s, s.handed e factory) := rfl

namespace Dealing

variable {s t : Machine K} {qs : List (Change K)}

/-- An instance that was built and is not live is never live again, and no factory gets it. -/
theorem gone (h : Dealing s qs t) {n : Nat} (hn : ¬ s.IsLive n) (hlt : n < s.manager.built) :
    ∀ q ∈ qs, (¬ q.1.IsLive n ∧ ¬ q.2.IsLive n) ∧ ∀ type factory, ¬ Returns n type factory q := by
  induction h with
  | nil => exact fun q hq => by cases hq
  | @keep s u _ _ h _ ih =>
    have hu : ¬ u.IsLive n := fun hu => by
      rcases h.comes hu with hs | ⟨hge, -⟩
      · exact hn hs
      · omega
    refine List.forall_mem_cons.2 ⟨⟨⟨hn, hu⟩, fun _ _ => h.silent⟩, ?_⟩
    exact ih hu (Nat.lt_of_lt_of_le hlt h.built)
  | @hand s _ _ id e factory h _ ih =>
    have hid : ¬ (s.without id).IsLive n := fun hu => hn hu.of_without
    have hne : n ≠ e.serial := fun heq => hn ⟨id, e, h.live, heq.symm⟩
    refine List.forall_mem_cons.2 ⟨⟨⟨hn, hid⟩, fun _ _ => not_returns_without⟩, ?_⟩
    refine List.forall_mem_cons.2 ⟨⟨⟨hid, hid⟩, fun _ _ hr => ?_⟩, ih hid hlt⟩
    exact hne (hr.eq (returns_handed _ e factory)).1
  | @force s _ _ id e h _ ih =>
    have hid : ¬ (s.without id).IsLive n := fun hu => hn hu.of_without
    exact List.forall_mem_cons.2 ⟨⟨⟨hn, hid⟩, fun _ _ => not_returns_without⟩, ih hid hlt⟩

/-- What a factory gets left with the change before. -/
theorem returned (h : Dealing s qs t) {i : Nat} {q : Change K} {serial : Nat} {type : String}
    {factory : K.Factory} (hq : qs[i]? = some q) (hr : Returns serial type factory q) :
    ∃ j p, i = j + 1 ∧ qs[j]? = some p ∧ Deletes serial type factory p := by
  induction h generalizing i with
  | nil => cases hq
  | keep hk _ ih =>
    cases i with
    | zero =>
      cases hq
      exact absurd hr hk.silent
    | succ i =>
      obtain ⟨j, p, rfl, hp⟩ := ih hq
      exact ⟨j + 1, p, rfl, hp⟩
  | @hand s _ _ id e factory' hy _ ih =>
    match i with
    | 0 =>
      cases hq
      exact absurd hr not_returns_without
    | 1 =>
      cases hq
      obtain ⟨rfl, rfl, rfl⟩ := (returns_handed _ e factory').eq hr
      exact ⟨0, _, rfl, rfl, id, e, hy, rfl, rfl, rfl⟩
    | i + 2 =>
      obtain ⟨j, p, rfl, hp⟩ := ih hq
      exact ⟨j + 2, p, rfl, hp⟩
  | force _ _ ih =>
    cases i with
    | zero =>
      cases hq
      exact absurd hr not_returns_without
    | succ i =>
      obtain ⟨j, p, rfl, hp⟩ := ih hq
      exact ⟨j + 1, p, rfl, hp⟩

/-- When a factory gets an instance it is not live, and afterwards it is never live and no factory
gets it. -/
theorem after_returned (h : Dealing s qs t) (hs : s.Bounded) {i : Nat} {q : Change K} {serial : Nat}
    {type : String} {factory : K.Factory} (hq : qs[i]? = some q)
    (hr : Returns serial type factory q) :
    (¬ q.1.IsLive serial ∧ ¬ q.2.IsLive serial) ∧
      ∀ p ∈ qs.drop (i + 1), (¬ p.1.IsLive serial ∧ ¬ p.2.IsLive serial) ∧
        ∀ type factory, ¬ Returns serial type factory p := by
  induction h generalizing i with
  | nil => cases hq
  | keep hk _ ih =>
    cases i with
    | zero =>
      cases hq
      exact absurd hr hk.silent
    | succ i => exact ih (hs.keep hk) hq
  | @hand s _ _ id e factory' hy hrest ih =>
    match i with
    | 0 =>
      cases hq
      exact absurd hr not_returns_without
    | 1 =>
      cases hq
      obtain ⟨rfl, -, -⟩ := (returns_handed _ e factory').eq hr
      exact ⟨⟨hy.gone, hy.gone⟩, hrest.gone hy.gone (hs _ ⟨id, e, hy.live, rfl⟩)⟩
    | i + 2 => exact ih (hs.without id) hq
  | @force s _ _ id e _ _ ih =>
    cases i with
    | zero =>
      cases hq
      exact absurd hr not_returns_without
    | succ i => exact ih (hs.without id) hq

/-- An instance that leaves goes to a factory with the next change, or no factory gets it from then
on. -/
theorem of_leaves (h : Dealing s qs t) (hs : s.Bounded) {i : Nat} {q : Change K} {serial : Nat}
    (hq : qs[i]? = some q) (hl : Leaves serial q) :
    (∃ type factory p, Deletes serial type factory q ∧ qs[i + 1]? = some p ∧
      Returns serial type factory p) ∨
    Forced serial q ∧ ∀ p ∈ qs.drop i, ∀ type factory, ¬ Returns serial type factory p := by
  induction h generalizing i with
  | nil => cases hq
  | keep hk _ ih =>
    cases i with
    | zero =>
      cases hq
      exact absurd (hk.stays hl.1) hl.2
    | succ i => exact ih (hs.keep hk) hq
  | @hand s _ _ id e factory hy _ ih =>
    match i with
    | 0 =>
      cases hq
      obtain rfl := Machine.serial_of_leaves hy.live hl
      exact .inl ⟨e.type, factory, _, ⟨id, e, hy, rfl, rfl, rfl⟩, rfl, returns_handed _ e factory⟩
    | 1 =>
      cases hq
      exact absurd hl.1 hl.2
    | i + 2 => exact ih (hs.without id) hq
  | @force s _ _ id e hf hrest ih =>
    cases i with
    | zero =>
      cases hq
      obtain rfl := Machine.serial_of_leaves hf.live hl
      refine .inr ⟨⟨id, e, hf, rfl, rfl⟩, ?_⟩
      refine List.forall_mem_cons.2 ⟨fun _ _ => not_returns_without, fun p hp => ?_⟩
      exact (hrest.gone hf.gone (hs _ ⟨id, e, hf.live, rfl⟩) p hp).2
    | succ i => exact ih (hs.without id) hq

theorem keepsCustody (h : Dealing s qs t) (hs : s.Bounded) : Custody qs where
  returned hq hr := h.returned hq hr
  once {i j p q serial type type' factory factory'} hp hq hr hr' := by
    have hlater : ∀ {i j p q type type' factory factory'}, qs[i]? = some p → qs[j]? = some q →
        Returns serial type factory p → Returns serial type' factory' q → ¬ i < j :=
      fun hp hq hr hr' hij =>
        ((h.after_returned hs hp hr).2 _ (mem_drop_of_getElem? hq hij)).2 _ _ hr'
    exact Nat.le_antisymm (Nat.not_lt.1 (hlater hq hp hr' hr)) (Nat.not_lt.1 (hlater hp hq hr hr'))
  dead {i j p q serial type factory} hp hr hij hq := by
    obtain ⟨hthen, hafter⟩ := h.after_returned hs hp hr
    rcases Nat.eq_or_lt_of_le hij with rfl | hlt
    · cases hp.symm.trans hq
      exact hthen
    · exact (hafter q (mem_drop_of_getElem? hq hlt)).1
  leaves {i q serial} hq hl := by
    refine (h.of_leaves hs hq hl).imp_right fun hforce => ⟨hforce.1, fun p hp type factory hr => ?_⟩
    obtain ⟨k, hk⟩ := List.mem_iff_getElem?.1 hp
    rcases Nat.lt_or_ge k i with hlt | hge
    · -- What a factory had got before would not be live any more.
      exact ((h.after_returned hs hk hr).2 q (mem_drop_of_getElem? hq hlt)).1.1 hl.1
    · exact hforce.2 p (mem_drop_of_getElem? hk hge) type factory hr

end Dealing

/-! ## Histories -/

namespace Machine

/-- All that has happened to an engine since its beginning, which rests now. None of its errands was
an end that broke off. -/
inductive Tended : List (Change K) → Machine K → Prop
  | fresh (settings : Settings) (host : Host) : Tended [] (.fresh settings host)
  | after {ps : List (Change K)} {s t : Machine K} {x : Except Breakdown Unit} (h : Tended ps s)
    {e : Errand K} (he : e.Settles s) (hrun : s.run? e.run = some (x, t)) :
    Tended (ps ++ e.run.changes s) t

variable {s : Machine K} {ps : List (Change K)}

theorem Tended.rests (h : Tended ps s) : s.Rests := by
  induction h with
  | fresh settings host => exact .fresh settings host
  | after _ _ hrun ih => exact ih.after _ hrun

theorem Tended.dealing (h : Tended ps s) :
    ∃ settings host, Dealing (.fresh settings host) ps s := by
  induction h with
  | fresh settings host => exact ⟨settings, host, .nil⟩
  | @after ps s t x h e he hrun ih =>
    obtain ⟨settings, host, hps⟩ := ih
    obtain ⟨u, hu⟩ := Errand.deals he (Seen.between h.rests).orderly
    obtain rfl : u = t := hu.path.unique (path_changes hrun)
    exact ⟨settings, host, hps.append hu⟩

/-- A deletion from a machine that succeeds hands the instance of the block to the factory that is
registered for its type, just once, while nothing but the entry of the block has a handle to it. -/
def ReturnsDeleted (m : Machine K) : Prop :=
  ∀ id t, m.run? (del id) = some (.ok (.ok ()), t) → ∃ e factory,
    m.manager.blocks.get? id = some e ∧ m.manager.factories.get? e.type = some factory ∧
    m.handles e.serial = 1 ∧ ¬ t.IsLive e.serial ∧
    t.events = .released e.serial :: .returned e.serial e.type factory ::
      .notice (.deleted id) :: m.events

theorem Orderly.returnsDeleted {m : Machine K} (h : m.Orderly) : m.ReturnsDeleted := by
  intro id t hdel
  obtain ⟨e, c, factory, he, hc, -, hfac, rfl⟩ := (abides_del_free.result hdel : _) rfl
  have hne : e.contents ≠ none := by rw [hc]; exact Option.some_ne_none c
  exact ⟨e, factory, he, hfac, h.handles_eq_one he hne, h.not_isLive_without he, rfl⟩

end Machine

/-- **Custody.** Whatever has happened, whatever the hooks do and whichever factories come and go:
an instance is handed to a factory at most once, and not while it is live; a deletion that succeeds
hands the instance to the factory that is registered for its type at that moment, and nothing else
has a handle to it then; and an instance leaves otherwise only when it is dropped by force, and then
no factory ever gets it. -/
theorem custody {ps : List (Change K)} {s : Machine K} (h : s.Tended ps) {e : Errand K}
    (he : e.Settles s) :
    Custody (ps ++ e.run.changes s) ∧ s.ReturnsDeleted ∧
      ∀ m ∈ e.run.moments s, m.ReturnsDeleted := by
  obtain ⟨settings, host, hps⟩ := h.dealing
  obtain ⟨t, ht⟩ := Errand.deals he (Machine.Seen.between h.rests).orderly
  refine ⟨(hps.append ht).keepsCustody ?_, ?_, fun m hm => ?_⟩
  · rintro n ⟨id, e, he, -⟩
    cases he
  · exact (Machine.Seen.between h.rests).orderly.returnsDeleted
  · exact (Machine.Seen.during h.rests e hm).orderly.returnsDeleted

namespace Machine

variable {s : Machine K}

theorem isLive_of_map {id : BlockId} {n : Nat}
    (h : (s.manager.blocks.get? id).map (·.serial) = some n) : s.IsLive n := by
  obtain ⟨e, he, hserial⟩ := Option.map_eq_some_iff.1 h
  exact ⟨id, e, he, hserial⟩

theorem not_isLive_of_nil {n : Nat} (h : s.manager.blocks.toList = []) : ¬ s.IsLive n := by
  rintro ⟨id, e, he, -⟩
  rw [Keyed.get?_eq_some_iff, h] at he
  cases he

end Machine

/-- A block is started, drops itself by force and adds a new one, which is deleted. -/
def endPhoenix : Errand phoenixes :=
  .play 5 do
    Script.ask (.register "phoenix" ())
    discard (Script.ask (.add ⟨1⟩ "phoenix"))
    discard (Script.ask (.start ⟨1⟩))
    discard (Script.ask (.del ⟨1⟩))

/-- The first block leaves by force from inside of its hook, and no factory gets it; the second one
goes to the factory. -/
theorem custody_endPhoenix : ∃ qs : List (Change phoenixes), Custody qs ∧
    (∃ q ∈ qs, Leaves 0 q ∧ Forced 0 q ∧ ∀ p ∈ qs, ∀ type factory, ¬ Returns 0 type factory p) ∧
    ∃ i q p, qs[i]? = some q ∧ Leaves 1 q ∧ qs[i + 1]? = some p ∧ Returns 1 "phoenix" () p ∧
      Deletes 1 "phoenix" () q := by
  obtain ⟨hcustody, -⟩ :=
    custody (.fresh {} .manual) (e := endPhoenix) (s := .fresh {} .manual) trivial
  obtain ⟨q, p, hq, hp, hlive, hgone, hsilent⟩ : ∃ q p : Change phoenixes,
      (endPhoenix.run.changes (.fresh {} .manual))[13]? = some q ∧
      (endPhoenix.run.changes (.fresh {} .manual))[14]? = some p ∧
      (q.1.manager.blocks.get? ⟨1⟩).map (·.serial) = some 0 ∧ q.2.manager.blocks.toList = [] ∧
      p.2.events = p.1.events := ⟨_, _, rfl, rfl, rfl, rfl, rfl⟩
  obtain ⟨q', p', hq', hp', hlive', hgone', hevents⟩ : ∃ q p : Change phoenixes,
      (endPhoenix.run.changes (.fresh {} .manual))[22]? = some q ∧
      (endPhoenix.run.changes (.fresh {} .manual))[23]? = some p ∧
      (q.1.manager.blocks.get? ⟨1⟩).map (·.serial) = some 1 ∧ q.2.manager.blocks.toList = [] ∧
      p.2.events = .returned 1 "phoenix" () :: p.1.events := ⟨_, _, rfl, rfl, rfl, rfl, rfl⟩
  have hreturn : Returns 1 "phoenix" () p' := hevents
  have hleaves : Leaves 0 q := ⟨Machine.isLive_of_map hlive, Machine.not_isLive_of_nil hgone⟩
  have hleaves' : Leaves 1 q' := ⟨Machine.isLive_of_map hlive', Machine.not_isLive_of_nil hgone'⟩
  refine ⟨_, hcustody, ⟨q, List.mem_of_getElem? hq, hleaves, ?_⟩,
    ⟨22, q', p', hq', hleaves', hp', hreturn, ?_⟩⟩
  · rcases hcustody.leaves hq hleaves with ⟨type, factory, p'', -, hp'', hr⟩ | hforce
    · cases hp.symm.trans hp''
      exact absurd hr (Machine.not_returns_of_events_eq hsilent)
    · exact hforce
  · rcases hcustody.leaves hq' hleaves' with ⟨type, factory, p'', hdelete, hp'', hr⟩ | ⟨-, hnone⟩
    · cases hp'.symm.trans hp''
      obtain ⟨-, rfl, rfl⟩ := hr.eq hreturn
      exact hdelete
    · exact absurd hreturn (hnone p' (List.mem_of_getElem? hp') _ _)

end BlockFlow
