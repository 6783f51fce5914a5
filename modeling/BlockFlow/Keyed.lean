/-!
# Values kept by key, in ascending order of their keys

Live blocks are kept by number and factories by name; both are always visited in ascending order, so
the order belongs to the type.

1. `Keyed`: the table; `get?`, `insert`, `erase`, `modify`: its operations.
2. `get?_insert`, `get?_erase`, `get?_modify`: what each operation does to each key.
-/

namespace BlockFlow

/-- An order of keys: of two different keys one comes before the other. -/
class KeyOrder (κ : Type) [LT κ] : Prop where
  irrefl (a : κ) : ¬ a < a
  trans {a b c : κ} : a < b → b < c → a < c
  eq_of_not_lt {a b : κ} : ¬ a < b → ¬ b < a → a = b

instance : KeyOrder Int32 where
  irrefl _ := Int32.lt_irrefl
  trans := Int32.lt_trans
  eq_of_not_lt hab hba := Int32.le_antisymm (Int32.not_lt.1 hba) (Int32.not_lt.1 hab)

instance : KeyOrder String where
  irrefl := String.lt_irrefl
  trans := String.lt_trans
  eq_of_not_lt hab hba := String.le_antisymm (String.not_lt.1 hba) (String.not_lt.1 hab)

/-- Values by key. The keys ascend, so there is at most one value for a key. -/
@[ext]
structure Keyed (κ α : Type) [LT κ] where
  toList : List (κ × α)
  ascending : toList.Pairwise fun p q => p.1 < q.1

namespace Keyed

/-! ## Pairs in ascending order -/

section Pairs

variable {κ α : Type} [LT κ] [DecidableLT κ] [DecidableEq κ]

/-- Ascending pairs with a value for one more key, or another value for a key. -/
def insertPair (k : κ) (a : α) : List (κ × α) → List (κ × α)
  | [] => [(k, a)]
  | p :: ps =>
    if k < p.1 then (k, a) :: p :: ps
    else if k = p.1 then (k, a) :: ps
    else p :: insertPair k a ps

theorem eq_or_mem_of_mem_insertPair {k : κ} {a : α} {ps : List (κ × α)} {q : κ × α}
    (h : q ∈ insertPair k a ps) : q = (k, a) ∨ q ∈ ps := by
  induction ps with
  | nil => simpa [insertPair] using h
  | cons p ps ih =>
    rw [insertPair] at h
    split at h
    · simpa using h
    · split at h
      · simp only [List.mem_cons] at h ⊢
        exact h.imp_right Or.inr
      · simp only [List.mem_cons] at h ⊢
        rcases h with h | h
        · exact .inr (.inl h)
        · exact (ih h).imp_right Or.inr

theorem ascending_insertPair [KeyOrder κ] (k : κ) (a : α)
    {ps : List (κ × α)} (h : ps.Pairwise fun p q => p.1 < q.1) :
    (insertPair k a ps).Pairwise fun p q => p.1 < q.1 := by
  induction ps with
  | nil => simp [insertPair]
  | cons p ps ih =>
    obtain ⟨hp, hps⟩ := List.pairwise_cons.1 h
    rw [insertPair]
    split
    · next hk =>
      refine List.pairwise_cons.2 ⟨fun q hq => ?_, h⟩
      rcases List.mem_cons.1 hq with rfl | hq
      · exact hk
      · exact KeyOrder.trans hk (hp q hq)
    · split
      · next hk => exact List.pairwise_cons.2 ⟨fun q hq => hk ▸ hp q hq, hps⟩
      · next hlt hne =>
        refine List.pairwise_cons.2 ⟨fun q hq => ?_, ih hps⟩
        rcases eq_or_mem_of_mem_insertPair hq with rfl | hq
        · exact Classical.byContradiction fun hn =>
            hne (KeyOrder.eq_of_not_lt hlt hn)
        · exact hp q hq

theorem find?_insertPair (k k' : κ) (a : α) (ps : List (κ × α)) :
    (insertPair k a ps).find? (·.1 = k') =
      if k = k' then some (k, a) else ps.find? (·.1 = k') := by
  induction ps with
  | nil => by_cases h : k = k' <;> simp [insertPair, h]
  | cons p ps ih =>
    rw [insertPair]
    split
    · by_cases h : k = k' <;> simp [h]
    · split
      · next hk => by_cases h : k = k' <;> simp_all
      · next hne =>
        by_cases h : k = k'
        · have : p.1 ≠ k' := fun e => hne (h.trans e.symm)
          simp_all
        · rw [List.find?_cons, List.find?_cons, ih]
          simp [h]

end Pairs

/-! ## The table -/

variable {κ α : Type} [LT κ]

/-- The table without keys. -/
def empty : Keyed κ α := ⟨[], .nil⟩

instance : Inhabited (Keyed κ α) := ⟨empty⟩

/-- The keys, ascending. -/
def keys (t : Keyed κ α) : List κ := t.toList.map (·.1)

/-- The values, in the order of their keys. -/
def values (t : Keyed κ α) : List α := t.toList.map (·.2)

def size (t : Keyed κ α) : Nat := t.toList.length

def leastKey? (t : Keyed κ α) : Option κ := t.keys.head?

variable [DecidableEq κ]

def get? (t : Keyed κ α) (k : κ) : Option α := (t.toList.find? (·.1 = k)).map (·.2)

def contains (t : Keyed κ α) (k : κ) : Bool := (t.get? k).isSome

/-- The table without a key. -/
def erase (t : Keyed κ α) (k : κ) : Keyed κ α :=
  ⟨t.toList.filter (·.1 ≠ k), t.ascending.filter _⟩

/-- The table with the value of a key changed, if it has one. -/
def modify (t : Keyed κ α) (k : κ) (f : α → α) : Keyed κ α where
  toList := t.toList.map fun p => if p.1 = k then (p.1, f p.2) else p
  ascending := List.pairwise_map.2 <| t.ascending.imp fun h => by
    split <;> split <;> exact h

/-- The table with a value for a key, which replaces the one it has. -/
def insert [DecidableLT κ] [KeyOrder κ] (t : Keyed κ α) (k : κ) (a : α) : Keyed κ α :=
  ⟨insertPair k a t.toList, ascending_insertPair k a t.ascending⟩

@[simp]
theorem get?_empty (k : κ) : (empty : Keyed κ α).get? k = none := rfl

theorem get?_insert [DecidableLT κ] [KeyOrder κ] (t : Keyed κ α) (k k' : κ) (a : α) :
    (t.insert k a).get? k' = if k = k' then some a else t.get? k' := by
  simp only [get?, insert, find?_insertPair]
  split <;> simp

theorem get?_erase (t : Keyed κ α) (k k' : κ) :
    (t.erase k).get? k' = if k = k' then none else t.get? k' := by
  simp only [get?, erase, List.find?_filter]
  split
  · next h => subst h; simp
  · next h =>
    congr 2
    funext p
    by_cases hp : p.1 = k' <;> simp [hp, Ne.symm h]

theorem get?_eq_some_iff [KeyOrder κ] {t : Keyed κ α} {k : κ} {a : α} :
    t.get? k = some a ↔ (k, a) ∈ t.toList := by
  obtain ⟨ps, h⟩ := t
  simp only [get?]
  induction ps with
  | nil => simp
  | cons p ps ih =>
    obtain ⟨hp, hps⟩ := List.pairwise_cons.1 h
    rw [List.find?_cons, List.mem_cons]
    by_cases hk : p.1 = k
    · -- The key stands at the head, so it is no key of the rest.
      have hrest : (k, a) ∉ ps := fun hmem => KeyOrder.irrefl p.1 (hk.symm ▸ hp _ hmem)
      simp only [hk, hrest, or_false, decide_true, Option.map_some, Option.some.injEq]
      exact ⟨fun ha => by rw [← hk, ← ha], fun hp => by rw [← hp]⟩
    · have hne : (k, a) ≠ p := fun e => hk (by rw [← e])
      simp only [hk, hne, false_or, decide_false]
      exact ih hps

@[simp]
theorem modify_id (t : Keyed κ α) (k : κ) : t.modify k id = t := by
  refine Keyed.ext ?_
  simp [modify]

/-- The table stays the same if the value of the key does. -/
theorem modify_eq_self [KeyOrder κ] {t : Keyed κ α} {k : κ} {a : α} {f : α → α}
    (h : t.get? k = some a) (hf : f a = a) : t.modify k f = t := by
  have hsame : ∀ p ∈ t.toList, (if p.1 = k then (p.1, f p.2) else p) = p := by
    intro p hp
    split
    · next hk =>
      have hget : t.get? k = some p.2 := get?_eq_some_iff.2 (hk ▸ hp)
      obtain rfl : p.2 = a := Option.some.inj (hget.symm.trans h)
      rw [hf]
    · rfl
  exact Keyed.ext ((List.map_congr_left hsame).trans (List.map_id _))

theorem mem_keys_iff [KeyOrder κ] {t : Keyed κ α} {k : κ} : k ∈ t.keys ↔ t.get? k ≠ none := by
  rw [Option.ne_none_iff_exists', keys, List.mem_map]
  constructor
  · rintro ⟨⟨_, a⟩, hp, rfl⟩
    exact ⟨a, get?_eq_some_iff.2 hp⟩
  · rintro ⟨a, ha⟩
    exact ⟨(k, a), get?_eq_some_iff.1 ha, rfl⟩

theorem modify_modify (t : Keyed κ α) (k : κ) (f g : α → α) :
    (t.modify k f).modify k g = t.modify k fun a => g (f a) := by
  refine Keyed.ext ?_
  simp only [modify, List.map_map]
  refine List.map_congr_left fun p _ => ?_
  by_cases h : p.1 = k <;> simp [h]

/-- There is nothing to take away for a key without a value. -/
theorem erase_of_get?_eq_none {t : Keyed κ α} {k : κ} (h : t.get? k = none) : t.erase k = t := by
  have hk : ∀ p ∈ t.toList, p.1 ≠ k := by simpa [get?] using h
  exact Keyed.ext (List.filter_eq_self.2 fun p hp => decide_eq_true (hk p hp))

theorem get?_modify (t : Keyed κ α) (k k' : κ) (f : α → α) :
    (t.modify k f).get? k' = if k = k' then (t.get? k').map f else t.get? k' := by
  simp only [get?, modify]
  induction t.toList with
  | nil => simp
  | cons p ps ih =>
    rw [List.map_cons, List.find?_cons, List.find?_cons]
    by_cases hp : p.1 = k <;> by_cases hp' : p.1 = k' <;> simp_all
    exact fun h => absurd h.symm hp

theorem contains_modify (t : Keyed κ α) (k k' : κ) (f : α → α) :
    (t.modify k f).contains k' = t.contains k' := by
  unfold contains
  rw [get?_modify]
  split
  · exact Option.isSome_map
  · rfl

theorem contains_insert_of_contains [DecidableLT κ] [KeyOrder κ] {t : Keyed κ α} {k' : κ}
    (h : t.contains k' = true) (k : κ) (a : α) : (t.insert k a).contains k' = true := by
  unfold contains at h ⊢
  rw [get?_insert]
  split
  · rfl
  · exact h

/-! ## Values after an operation -/

variable {t : Keyed κ α} {k k' : κ} {a b : α}

theorem of_get?_insert [DecidableLT κ] [KeyOrder κ] (h : (t.insert k a).get? k' = some b) :
    (k' = k ∧ b = a) ∨ (k' ≠ k ∧ t.get? k' = some b) := by
  rw [get?_insert] at h
  split at h
  · next hk => exact .inl ⟨hk.symm, (Option.some.inj h).symm⟩
  · next hk => exact .inr ⟨Ne.symm hk, h⟩

theorem of_get?_erase (h : (t.erase k).get? k' = some b) : k' ≠ k ∧ t.get? k' = some b := by
  rw [get?_erase] at h
  split at h
  · cases h
  · next hk => exact ⟨Ne.symm hk, h⟩

theorem of_get?_modify {f : α → α} (h : (t.modify k f).get? k' = some b) :
    (k' = k ∧ ∃ a, t.get? k = some a ∧ b = f a) ∨ (k' ≠ k ∧ t.get? k' = some b) := by
  rw [get?_modify] at h
  split at h
  · next hk =>
    subst hk
    obtain ⟨a, ha, hb⟩ := Option.map_eq_some_iff.1 h
    exact .inl ⟨rfl, a, ha, hb.symm⟩
  · next hk => exact .inr ⟨Ne.symm hk, h⟩

end Keyed

end BlockFlow
