import BlockFlow.Proofs.Step

/-!
# Live blocks and what they weigh

What bounds a run is counted over the live blocks: how many of them are not inside of a hook, how
many messages they let pass at most. A hook changes one block at a time, so such a number changes by
what that one block weighs before and after.

1. `Keyed.total`: what the values of a table weigh together; `total_modify_add`: one value changes.
2. `Machine.idle`: the number of live blocks that are not inside of a hook.
3. `Outline`, `Manager.outline`: the live blocks without their contents. `Machine.Settled`: from one
   machine to another nothing has changed but contents, the host and the record; what begins in a
   hook and settles there has settled when the hook ends (`Settled.regained`).
-/

namespace BlockFlow

namespace Keyed

variable {κ α β : Type} [LT κ]

/-- What the values of a table weigh together. -/
def total (w : α → Nat) (t : Keyed κ α) : Nat := t.values.foldr (w · + ·) 0

/-- The table with something done to each value. -/
def mapValues (g : α → β) (t : Keyed κ α) : Keyed κ β where
  toList := t.toList.map fun p => (p.1, g p.2)
  ascending := List.pairwise_map.2 t.ascending

theorem total_mapValues (w : β → Nat) (g : α → β) (t : Keyed κ α) :
    (t.mapValues g).total w = t.total fun a => w (g a) := by
  simp only [total, values, mapValues, List.map_map, List.foldr_map, Function.comp_def]

theorem size_mapValues (g : α → β) (t : Keyed κ α) : (t.mapValues g).size = t.size := by
  simp only [size, mapValues, List.length_map]

/-- Values that weigh at most `n` each weigh at most `n` times their number together. -/
theorem total_le_mul {w v : α → Nat} {n : Nat} (t : Keyed κ α) (h : ∀ a, w a ≤ n * v a) :
    t.total w ≤ n * t.total v := by
  unfold total
  induction t.values with
  | nil => exact Nat.zero_le _
  | cons a as ih =>
    rw [List.foldr_cons, List.foldr_cons, Nat.mul_add]
    exact Nat.add_le_add (h a) ih

theorem total_one (t : Keyed κ α) : (t.total fun _ => 1) = t.size := by
  simp only [total, values, size, List.foldr_map]
  induction t.toList with
  | nil => rfl
  | cons p ps ih => rw [List.foldr_cons, ih, List.length_cons, Nat.add_comm]

variable [DecidableEq κ]

theorem get?_mapValues (g : α → β) (t : Keyed κ α) (k : κ) :
    (t.mapValues g).get? k = (t.get? k).map g := by
  simp only [get?, mapValues]
  induction t.toList with
  | nil => rfl
  | cons p ps ih =>
    rw [List.map_cons, List.find?_cons, List.find?_cons]
    by_cases hp : p.1 = k
    · simp [hp]
    · simpa [hp] using ih

/-- A change of a value is seen in what is done to it. -/
theorem mapValues_modify (f : α → α) (f' : β → β) (g : α → β) (h : ∀ a, g (f a) = f' (g a))
    (t : Keyed κ α) (k : κ) : (t.modify k f).mapValues g = (t.mapValues g).modify k f' := by
  refine Keyed.ext ?_
  simp only [mapValues, modify, List.map_map]
  refine List.map_congr_left fun p _ => ?_
  by_cases hp : p.1 = k <;> simp [hp, h]

/-- One value changes, and with it the sum. -/
theorem total_modify_add [KeyOrder κ] {t : Keyed κ α} {k : κ} {a : α} (h : t.get? k = some a)
    (w : α → Nat) (f : α → α) : (t.modify k f).total w + w a = t.total w + w (f a) := by
  have hmem : (k, a) ∈ t.toList := get?_eq_some_iff.1 h
  obtain ⟨ps, hps⟩ := t
  simp only [total, values, modify] at hmem ⊢
  clear h
  induction ps with
  | nil => cases hmem
  | cons p ps ih =>
    obtain ⟨hp, hps⟩ := List.pairwise_cons.1 hps
    rcases List.mem_cons.1 hmem with rfl | hmem
    · -- The key stands at the head, so the rest stays as it is.
      have hrest : (ps.map fun q => if q.1 = k then (q.1, f q.2) else q) = ps := by
        refine (List.map_congr_left fun q hq => ?_).trans (List.map_id ps)
        refine if_neg ?_
        rintro rfl
        exact KeyOrder.irrefl _ (hp q hq)
      simp only [List.map_cons, hrest, if_true, List.foldr_cons]
      omega
    · have hne : p.1 ≠ k := by
        rintro rfl
        exact KeyOrder.irrefl p.1 (hp (p.1, a) hmem)
      have := ih hps hmem
      simp only [List.map_cons, hne, if_false, List.foldr_cons] at this ⊢
      omega

end Keyed

variable {K : Kit}

/-! ## Live blocks without their contents -/

/-- What there is to a live block besides its contents. -/
structure Outline where
  serial : Nat
  type : String
  state : State
  bindings : List Binding
  busy : Bool

/-- What there is to a live block besides its contents. -/
def Entry.outline (e : Entry K) : Outline := ⟨e.serial, e.type, e.state, e.bindings, e.isBusy⟩

def Manager.outline (m : Manager K) : Keyed BlockId Outline := m.blocks.mapValues Entry.outline

/-- The number of blocks that are not inside of a hook. -/
def Outline.idle (o : Outline) : Nat := if o.busy then 0 else 1

namespace Machine

/-- The number of live blocks that are not inside of a hook. -/
def idle (s : Machine K) : Nat := s.manager.outline.total Outline.idle

theorem idle_le_size (s : Machine K) : s.idle ≤ s.manager.blocks.size := by
  have hle : s.manager.outline.total Outline.idle ≤ 1 * s.manager.outline.total fun _ => 1 :=
    Keyed.total_le_mul _ fun o => by
      unfold Outline.idle
      split <;> omega
  rwa [Nat.one_mul, Keyed.total_one, Manager.outline, Keyed.size_mapValues] at hle

/-- From one machine to another nothing has changed but the contents of blocks, the host and the
record, and the same hooks are open. -/
structure Settled (s t : Machine K) : Prop where
  manager : t.manager = { s.manager with blocks := t.manager.blocks }
  outline : t.manager.outline = s.manager.outline
  stack : t.stack = s.stack

namespace Settled

variable {s t u : Machine K}

theorem refl (s : Machine K) : s.Settled s := ⟨rfl, rfl, rfl⟩

theorem trans (h : s.Settled t) (h' : t.Settled u) : s.Settled u where
  manager := by rw [h'.manager, h.manager]
  outline := h'.outline.trans h.outline
  stack := h'.stack.trans h.stack

theorem settings (h : s.Settled t) : t.manager.settings = s.manager.settings := by rw [h.manager]

theorem idle (h : s.Settled t) : t.idle = s.idle := by
  unfold Machine.idle
  rw [h.outline]

theorem size (h : s.Settled t) : t.manager.blocks.size = s.manager.blocks.size := by
  have hsize := congrArg Keyed.size h.outline
  rwa [Manager.outline, Manager.outline, Keyed.size_mapValues, Keyed.size_mapValues] at hsize

/-- Something aside is recorded, whatever happens on the host. -/
theorem aside (s : Machine K) (host : Host) (es : List (Event K))
    (h : openHooks (es ++ s.events) = s.stack) : s.Settled ⟨s.manager, host, es ++ s.events⟩ :=
  ⟨rfl, rfl, h⟩

theorem exists_entry (h : s.Settled t) {id : BlockId} {e : Entry K}
    (he : s.manager.blocks.get? id = some e) :
    ∃ e', t.manager.blocks.get? id = some e' ∧ e'.outline = e.outline := by
  have hget := congrArg (·.get? id) h.outline
  simp only [Manager.outline, Keyed.get?_mapValues, he, Option.map_some] at hget
  exact Option.map_eq_some_iff.1 hget

end Settled

/-! ## Inside of a hook -/

variable {s t : Machine K} {id : BlockId} {e : Entry K} {c : K.Contents} {hook : Hook}

/-- A block that is inside of a hook is one idle block less. -/
theorem idle_entered (he : s.manager.blocks.get? id = some e) (hc : e.contents = some c) :
    (s.entered e.serial id hook).idle + 1 = s.idle := by
  have hidle : e.outline.idle = 1 := by simp [Entry.outline, Entry.isBusy, Outline.idle, hc]
  have htotal := Keyed.total_modify_add he (fun e : Entry K => e.outline.idle)
    ({ · with contents := none })
  rw [hidle] at htotal
  unfold Machine.idle Manager.outline
  rw [Keyed.total_mapValues, Keyed.total_mapValues]
  exact htotal

theorem outline_entered (s : Machine K) (serial : Nat) (id : BlockId) (hook : Hook) :
    (s.entered serial id hook).manager.outline =
      s.manager.outline.modify id ({ · with busy := true }) :=
  Keyed.mapValues_modify (fun e : Entry K => { e with contents := none })
    (fun o : Outline => { o with busy := true }) Entry.outline (fun _ => rfl) _ _

theorem outline_regained (s : Machine K) (f : Frame) (c : K.Contents) :
    (s.regained f c).manager.outline =
      s.manager.outline.modify f.id ({ · with busy := false }) :=
  Keyed.mapValues_modify (fun e : Entry K => { e with contents := some c })
    (fun o : Outline => { o with busy := false }) Entry.outline (fun _ => rfl) _ _

/-- The block whose hook it is is still there when all has settled inside of the hook. -/
theorem Settled.exists_inside (h : (s.entered e.serial id hook).Settled t)
    (he : s.manager.blocks.get? id = some e) :
    ∃ e', t.manager.blocks.get? id = some e' ∧ e'.serial = e.serial := by
  obtain ⟨e', he', houtline⟩ := h.exists_entry (get?_within he)
  exact ⟨e', he', congrArg Outline.serial houtline⟩

/-- What has settled inside of a hook has settled when the hook is over. -/
theorem Settled.regained (h : (s.entered e.serial id hook).Settled t)
    (he : s.manager.blocks.get? id = some e) (hc : e.contents = some c) (c' : K.Contents) :
    s.Settled (t.regained ⟨e.serial, id⟩ c') where
  manager := by
    unfold Machine.regained
    simp only
    rw [h.manager]
    rfl
  outline := by
    have hget : s.manager.outline.get? id = some e.outline := by
      rw [Manager.outline, Keyed.get?_mapValues, he, Option.map_some]
    have hidle : { e.outline with busy := false } = e.outline := by
      simp [Entry.outline, Entry.isBusy, hc]
    rw [outline_regained, h.outline, outline_entered, Keyed.modify_modify]
    exact Keyed.modify_eq_self hget hidle
  stack := by
    show t.stack.tail = s.stack
    rw [h.stack]
    rfl

end Machine

end BlockFlow
