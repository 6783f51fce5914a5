import BlockFlow.Manager
import Mathlib.Data.List.Sort

/-!
# A plain map of blocks

The engine without hooks, timers and descriptors is no more than a map of live blocks and a map of
factories. Each operation on it has an answer, leaves the maps in some way, and does something to
instances.

1. `Row`, `PlainMap`: the maps.
2. `Effect`: what comes of an operation; `add`, `start`, `stop`, `bind`, `conf`, `del`, `clear`: the
   operations on blocks.
3. `Op`, `PlainMap.effect`: all operations.
4. `Lists`: the live blocks in the order of their numbers; `farewell_eq`, `deeds_clear_cons`: how
   they end one after the other.
5. `adds_effect`: an operation adds at most one block.
-/

namespace BlockFlow

variable {K : Kit}

/-! ## The maps -/

/-- What the map keeps of a live block. -/
structure Row where
  serial : Nat
  type : String
  started : Bool
  bindings : List Binding

/-- A map of live blocks and a map of factories. -/
structure PlainMap (K : Kit) where
  /-- Whether the destination of a binding must be there when the binding is made. -/
  strict : Bool
  factories : String → Option K.Factory
  live : BlockId → Option Row
  /-- The number of instances built so far. -/
  built : Nat

/-- What comes of an operation: its answer, the maps after it, and what it does to instances. -/
structure Effect (K : Kit) (α : Type) where
  answer : α
  after : PlainMap K
  deeds : List (Event K) := []

namespace PlainMap

def fresh (strict : Bool) : PlainMap K := ⟨strict, fun _ => none, fun _ => none, 0⟩

def setFactory (m : PlainMap K) (type : String) (factory : Option K.Factory) : PlainMap K :=
  { m with factories := fun type' => if type = type' then factory else m.factories type' }

def put (m : PlainMap K) (id : BlockId) (row : Option Row) : PlainMap K :=
  { m with live := fun id' => if id = id' then row else m.live id' }

/-! ## Operations on blocks -/

def fail (m : PlainMap K) (e : EngineError) : Effect K (Except EngineError Unit) :=
  ⟨.error e, m, []⟩

/-- A hook of an instance is called, and the block has another row then. -/
def called (m : PlainMap K) (id : BlockId) (hook : Hook) (row : Row) :
    Effect K (Except EngineError Unit) :=
  ⟨.ok (), m.put id (some row), [.entered row.serial id hook, .left row.serial]⟩

/-- A block is added. Which factories build one is given. -/
def add (m : PlainMap K) (builds : K.Factory → Bool) (id : BlockId) (type : String) :
    Effect K (Except EngineError Unit) :=
  if id = .sink then m.fail (.forbiddenId id)
  else if (m.live id).isSome then m.fail (.duplicateBlock id)
  else
    match m.factories type with
    | none => m.fail (.unknownType type)
    | some factory =>
      if builds factory then
        ⟨.ok (), { m.put id (some ⟨m.built, type, false, []⟩) with built := m.built + 1 },
          [.built m.built type factory]⟩
      else m.fail (.constructionFailed type)

def withLive (m : PlainMap K) (id : BlockId) (f : Row → Effect K (Except EngineError Unit)) :
    Effect K (Except EngineError Unit) :=
  match m.live id with
  | none => m.fail (.blockNotFound id)
  | some row => f row

def start (m : PlainMap K) (id : BlockId) : Effect K (Except EngineError Unit) :=
  m.withLive id fun row =>
    if row.started then ⟨.ok (), m, []⟩ else m.called id .start { row with started := true }

def stop (m : PlainMap K) (id : BlockId) : Effect K (Except EngineError Unit) :=
  m.withLive id fun row =>
    if row.started then m.called id .stop { row with started := false } else ⟨.ok (), m, []⟩

def bind (m : PlainMap K) (id : BlockId) (port : Port) (dest : BlockId) :
    Effect K (Except EngineError Unit) :=
  if m.strict ∧ dest ≠ .sink ∧ m.live dest = none then m.fail (.blockNotFound dest)
  else
    m.withLive id fun row =>
      m.called id (.bind port dest) { row with bindings := row.bindings ++ [⟨port, dest⟩] }

def conf (m : PlainMap K) (id : BlockId) (entry : String) : Effect K (Except EngineError Unit) :=
  m.withLive id fun row => m.called id (.configure entry) row

def del (m : PlainMap K) (id : BlockId) : Effect K (Except EngineError Unit) :=
  m.withLive id fun row =>
    if row.started then m.fail (.blockStarted id)
    else
      match m.factories row.type with
      | none => m.fail (.unknownType row.type)
      | some factory =>
        ⟨.ok (), m.put id none, [.returned row.serial row.type factory, .released row.serial]⟩

/-- The end of a block: it is stopped, handed back if there is a factory for it, and released. -/
def farewell (m : PlainMap K) (id : BlockId) : List (Event K) :=
  match m.live id with
  | none => []
  | some row =>
    (if row.started then [.entered row.serial id .stop, .left row.serial] else []) ++
      match m.factories row.type with
      | none => [.released row.serial]
      | some factory => [.returned row.serial row.type factory, .released row.serial]

/-- All blocks end in order. -/
def clear (m : PlainMap K) (order : List BlockId) : Effect K Unit where
  answer := ()
  after := { m with live := fun _ => none }
  deeds := order.flatMap m.farewell

end PlainMap

/-! ## All operations -/

/-- An operation on factories or blocks. -/
inductive Op (K : Kit) where
  | register (type : String) (factory : K.Factory)
  | unregister (type : String)
  | add (id : BlockId) (type : String)
  | start (id : BlockId)
  | stop (id : BlockId)
  | del (id : BlockId)
  | bind (id : BlockId) (port : Port) (dest : BlockId)
  | conf (id : BlockId) (entry : String)
  | clear

@[reducible] def Op.request : Op K → Request K.Factory K.Remark
  | .register type factory => .register type factory
  | .unregister type => .unregister type
  | .add id type => .add id type
  | .start id => .start id
  | .stop id => .stop id
  | .del id => .del id
  | .bind id port dest => .bind id port dest
  | .conf id entry => .conf id entry
  | .clear => .clear

namespace PlainMap

/-- What comes of an operation, where the live blocks are in order. -/
def effect (m : PlainMap K) (builds : K.Factory → Bool) (order : List BlockId) :
    (op : Op K) → Effect K op.request.Answer
  | .register type factory => ⟨(), m.setFactory type (some factory), []⟩
  | .unregister type => ⟨(m.factories type).isSome, m.setFactory type none, []⟩
  | .add id type => m.add builds id type
  | .start id => m.start id
  | .stop id => m.stop id
  | .del id => m.del id
  | .bind id port dest => m.bind id port dest
  | .conf id entry => m.conf id entry
  | .clear => m.clear order

/-! ## The live blocks in order -/

/-- The numbers of the live blocks, ascending. -/
structure Lists (m : PlainMap K) (order : List BlockId) : Prop where
  ascending : order.Pairwise (· < ·)
  mem_iff (id : BlockId) : id ∈ order ↔ m.live id ≠ none

variable {m : PlainMap K} {id : BlockId} {row : Row} {order rest : List BlockId}

/-- There is one way to list the live blocks. -/
theorem Lists.unique (h : m.Lists order) (h' : m.Lists rest) : order = rest := by
  have hirrefl : Std.Irrefl (α := BlockId) (· < ·) := ⟨KeyOrder.irrefl⟩
  have hantisymm : Std.Antisymm (α := BlockId) (· < ·) :=
    ⟨fun a b hab hba => absurd (KeyOrder.trans hab hba) (KeyOrder.irrefl a)⟩
  exact h.ascending.eq_of_mem_iff h'.ascending fun id => by rw [h.mem_iff, h'.mem_iff]

theorem Lists.not_mem (h : m.Lists (id :: rest)) : id ∉ rest := fun hmem =>
  KeyOrder.irrefl id ((List.pairwise_cons.1 h.ascending).1 id hmem)

theorem Lists.put_none (h : m.Lists (id :: rest)) : (m.put id none).Lists rest where
  ascending := (List.pairwise_cons.1 h.ascending).2
  mem_iff id' := by
    show _ ↔ (if id = id' then none else m.live id') ≠ none
    split
    · next hid => exact iff_of_false (hid ▸ h.not_mem) fun hne => hne rfl
    · next hid => rw [← h.mem_iff, List.mem_cons, or_iff_right (Ne.symm hid)]

/-! ## The end of a block -/

@[simp]
theorem put_put (m : PlainMap K) (id : BlockId) (row row' : Option Row) :
    (m.put id row).put id row' = m.put id row' := by
  have hlive : (fun id' => if id = id' then row' else if id = id' then row else m.live id') =
      fun id' => if id = id' then row' else m.live id' := by
    funext id'
    by_cases hid : id = id'
    · rw [if_pos hid, if_pos hid]
    · rw [if_neg hid, if_neg hid, if_neg hid]
  unfold put
  rw [hlive]

theorem put_live (h : m.live id = some row) : m.put id (some row) = m := by
  have hlive : (fun id' => if id = id' then some row else m.live id') = m.live := by
    funext id'
    split
    · next hid => rw [← hid, h]
    · rfl
  unfold put
  rw [hlive]

/-- A live block that was asked to stop is stopped. -/
theorem after_stop (h : m.live id = some row) :
    (m.stop id).after = m.put id (some { row with started := false }) := by
  unfold stop withLive
  rw [h]
  by_cases hst : row.started
  · simp only [hst, if_true, called]
  · have hrow : { row with started := false } = row := by
      cases row
      simp_all
    simp only [hst, hrow, put_live h]
    rfl

theorem deeds_stop (h : m.live id = some row) :
    (m.stop id).deeds =
      if row.started then [.entered row.serial id .stop, .left row.serial] else [] := by
  unfold stop withLive
  rw [h]
  by_cases hst : row.started
  · simp only [hst, if_true, called]
  · simp [hst]

/-- A block is stopped first when it ends. -/
theorem farewell_eq (h : m.live id = some row) :
    m.farewell id = (m.stop id).deeds ++
      (m.put id (some { row with started := false })).farewell id := by
  have hlive : (m.put id (some { row with started := false })).live id =
      some { row with started := false } := if_pos rfl
  unfold farewell
  rw [h, hlive, deeds_stop h]
  rfl

/-- A stopped block is deleted if there is a factory for it. -/
theorem del_of_factory {factory : K.Factory} (h : m.live id = some row) (hst : row.started = false)
    (hfac : m.factories row.type = some factory) :
    m.del id = ⟨.ok (), m.put id none, m.farewell id⟩ := by
  simp [del, withLive, farewell, h, hst, hfac]

theorem del_of_no_factory (h : m.live id = some row) (hst : row.started = false)
    (hfac : m.factories row.type = none) : m.del id = m.fail (.unknownType row.type) := by
  simp [del, withLive, h, hst, hfac]

theorem farewell_of_no_factory (h : m.live id = some row) (hst : row.started = false)
    (hfac : m.factories row.type = none) : m.farewell id = [.released row.serial] := by
  simp [farewell, h, hst, hfac]

/-- The first block ends, then the others. -/
theorem deeds_clear_cons (hl : m.Lists (id :: rest)) :
    (m.clear (id :: rest)).deeds = m.farewell id ++ ((m.put id none).clear rest).deeds := by
  have hrest : rest.flatMap m.farewell = rest.flatMap (m.put id none).farewell := by
    refine List.flatMap_congr fun id' hid' => ?_
    have hlive : (m.put id none).live id' = m.live id' :=
      if_neg fun hid : id = id' => hl.not_mem (hid ▸ hid')
    unfold farewell
    rw [hlive]
    rfl
  show (id :: rest).flatMap m.farewell = _
  rw [List.flatMap_cons, hrest]
  rfl

/-! ## At most one more block -/

/-- From one map to another there is at most one live block more. -/
def Adds (m m' : PlainMap K) : Prop :=
  ∃ id, ∀ id', m'.live id' ≠ none → id' = id ∨ m.live id' ≠ none

theorem adds_refl (m : PlainMap K) : m.Adds m := ⟨.sink, fun _ => .inr⟩

theorem adds_put (m : PlainMap K) (id : BlockId) (row : Option Row) : m.Adds (m.put id row) := by
  refine ⟨id, fun id' h => ?_⟩
  by_cases hid : id = id'
  · exact .inl hid.symm
  · have hlive : (m.put id row).live id' = m.live id' := if_neg hid
    rw [hlive] at h
    exact .inr h

theorem adds_withLive {f : Row → Effect K (Except EngineError Unit)}
    (hf : ∀ row, m.Adds (f row).after) : m.Adds (m.withLive id f).after := by
  unfold withLive
  split
  · exact m.adds_refl
  · exact hf _

theorem adds_effect (m : PlainMap K) (builds : K.Factory → Bool) (order : List BlockId)
    (op : Op K) :
    m.Adds (m.effect builds order op).after := by
  cases op with
  | register | unregister => exact m.adds_refl
  | add id type =>
    show m.Adds (m.add builds id type).after
    unfold add
    split
    · exact m.adds_refl
    split
    · exact m.adds_refl
    split
    · exact m.adds_refl
    split
    · exact m.adds_put id _
    · exact m.adds_refl
  | start id =>
    refine adds_withLive fun row => ?_
    split
    · exact m.adds_refl
    · exact m.adds_put id _
  | stop id =>
    refine adds_withLive fun row => ?_
    split
    · exact m.adds_put id _
    · exact m.adds_refl
  | del id =>
    refine adds_withLive fun row => ?_
    split
    · exact m.adds_refl
    split
    · exact m.adds_refl
    · exact m.adds_put id none
  | bind id port dest =>
    show m.Adds (m.bind id port dest).after
    unfold bind
    split
    · exact m.adds_refl
    · exact adds_withLive fun row => m.adds_put id _
  | conf id entry => exact adds_withLive fun row => m.adds_put id _
  | clear => exact ⟨.sink, fun _ h => absurd rfl h⟩

theorem Lists.length_le {m' : PlainMap K} (h : m.Lists order) (h' : m'.Lists rest)
    (hadds : m.Adds m') : rest.length ≤ order.length + 1 := by
  obtain ⟨id, hid⟩ := hadds
  have hne : ∀ {a b : BlockId}, a < b → a ≠ b := fun hlt heq => KeyOrder.irrefl _ (heq ▸ hlt)
  have hnodup : rest.Nodup := List.Pairwise.imp hne h'.ascending
  have hsubset : rest ⊆ id :: order := by
    intro id' hmem
    rw [List.mem_cons, h.mem_iff]
    exact hid id' ((h'.mem_iff id').1 hmem)
  exact (List.subperm_of_subset hnodup hsubset).length_le

end PlainMap

end BlockFlow
