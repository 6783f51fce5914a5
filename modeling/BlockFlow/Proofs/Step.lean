import BlockFlow.Engine.Lifecycle
import Mathlib.Logic.Relation

/-!
# The steps of a machine

All that the engine does to its blocks is made of a few steps: an instance is built, one of its
hooks begins or ends, it is deleted or dropped. Whatever is to hold at every moment of every run is
proved of these steps.

1. `Frame`, `openHooks`, `Machine.stack`: the hooks that have begun and not ended.
2. `Hook.mark`, `Entry.Admits`: what the engine notes about a block before it calls a hook, and when
   it may call it.
3. `Step`: all steps; `Steps`: any number of them.
-/

namespace BlockFlow

variable {K : Kit}

/-! ## Open hooks -/

/-- A hook that has begun and not ended: the instance and the number under which it was called. -/
structure Frame where
  serial : Nat
  id : BlockId
  deriving DecidableEq

/-- The hooks that have begun and not ended, the innermost one first. -/
def openHooks : List (Event K) → List Frame
  | [] => []
  | .entered serial id _ :: es => ⟨serial, id⟩ :: openHooks es
  | .left _ :: es => (openHooks es).tail
  | _ :: es => openHooks es

/-- The hooks that the machine is inside of, the innermost one first. -/
def Machine.stack (s : Machine K) : List Frame := openHooks s.events

/-! ## Calling a hook -/

/-- What the engine notes about a block before it calls a hook. -/
def Hook.mark (hook : Hook) (e : Entry K) : Entry K :=
  match hook with
  | .bind port dest => { e with bindings := e.bindings ++ [⟨port, dest⟩] }
  | .start => { e with state := .started }
  | .stop => { e with state := .stopped }
  | _ => e

/-- When the engine calls a hook of a block. -/
def Entry.Admits (m : Manager K) (e : Entry K) : Hook → Prop
  | .bind _ dest => Run.mayLeadTo m dest
  | .start => e.state = .stopped
  | .stop => e.state = .started
  | _ => True

/-- A hook for which the engine notes nothing about the block. -/
def Hook.IsPlain : Hook → Prop
  | .bind _ _ | .start | .stop => False
  | _ => True

@[simp]
theorem Hook.serial_mark (hook : Hook) (e : Entry K) : (hook.mark e).serial = e.serial := by
  cases hook <;> rfl

@[simp]
theorem Hook.contents_mark (hook : Hook) (e : Entry K) : (hook.mark e).contents = e.contents := by
  cases hook <;> rfl

theorem Hook.mark_of_isPlain {hook : Hook} (h : hook.IsPlain) : hook.mark (K := K) = id := by
  cases hook <;> first | rfl | exact h.elim

theorem Entry.admits_of_isPlain {m : Manager K} {e : Entry K} {hook : Hook} (h : hook.IsPlain) :
    e.Admits m hook := by
  cases hook <;> trivial

/-! ## Machines after a step -/

namespace Machine

/-- The machine after something is noted about a block for a hook. -/
def marked (s : Machine K) (id : BlockId) (hook : Hook) : Machine K :=
  { s with manager.blocks := s.manager.blocks.modify id hook.mark }

/-- The machine after a hook of an instance has begun; its contents are away. -/
def entered (s : Machine K) (serial : Nat) (id : BlockId) (hook : Hook) : Machine K :=
  { s with
    manager.blocks := s.manager.blocks.modify id ({ · with contents := none })
    events := .entered serial id hook :: s.events }

/-- The machine after an instance has come back from its hook. -/
def regained (s : Machine K) (f : Frame) (c : K.Contents) : Machine K :=
  { s with
    manager.blocks := s.manager.blocks.modify f.id ({ · with contents := some c })
    events := .left f.serial :: s.events }

/-- The machine after the hook of an instance that is not live any more has ended. -/
def parted (s : Machine K) (f : Frame) (c : K.Contents) : Machine K :=
  { s with
    host := K.release c s.host
    events := .released f.serial :: .left f.serial :: s.events }

def without (s : Machine K) (id : BlockId) : Machine K :=
  { s with manager.blocks := s.manager.blocks.erase id }

def released (s : Machine K) (serial : Nat) (c : K.Contents) : Machine K :=
  { s with host := K.release c s.host, events := .released serial :: s.events }

/-- The machine after a block has been deleted and handed back to a factory. -/
def deleted (s : Machine K) (id : BlockId) (e : Entry K) (c : K.Contents) (factory : K.Factory) :
    Machine K :=
  ({ s with events := .returned e.serial e.type factory :: s.events }.without id).released
    e.serial c

end Machine

namespace Machine

variable {s : Machine K} {id id' : BlockId} {e e' : Entry K} {serial : Nat} {hook : Hook}

/-- A block is busy inside of its hook. -/
theorem get?_within (he : s.manager.blocks.get? id = some e) :
    (s.entered serial id hook).manager.blocks.get? id = some { e with contents := none } := by
  rw [entered, Keyed.get?_modify, if_pos rfl, he, Option.map_some]

theorem get?_within_of_ne (hid : id ≠ id') :
    (s.entered serial id hook).manager.blocks.get? id' = s.manager.blocks.get? id' := by
  rw [entered, Keyed.get?_modify, if_neg hid]

/-- The live blocks after a hook has begun. -/
theorem of_get?_entered (he : s.manager.blocks.get? id = some e)
    (h : ((s.marked id hook).entered serial id hook).manager.blocks.get? id' = some e') :
    (id' = id ∧ e' = { hook.mark e with contents := none }) ∨
      (id' ≠ id ∧ s.manager.blocks.get? id' = some e') := by
  rcases Keyed.of_get?_modify h with ⟨hid, a, ha, rfl⟩ | ⟨hid, h⟩
  · rcases Keyed.of_get?_modify ha with ⟨-, b, hb, rfl⟩ | ⟨hne, -⟩
    · rw [he] at hb
      cases hb
      exact .inl ⟨hid, rfl⟩
    · exact absurd rfl hne
  · rcases Keyed.of_get?_modify h with ⟨hid', -⟩ | h
    · exact absurd hid' hid
    · exact .inr h

/-- The live blocks after an instance has come back from its hook. -/
theorem of_get?_regained {f : Frame} {c : K.Contents} (he : s.manager.blocks.get? f.id = some e)
    (h : (s.regained f c).manager.blocks.get? id' = some e') :
    (id' = f.id ∧ e' = { e with contents := some c }) ∨
      (id' ≠ f.id ∧ s.manager.blocks.get? id' = some e') := by
  rcases Keyed.of_get?_modify h with ⟨hid, a, ha, rfl⟩ | h
  · rw [he] at ha
    cases ha
    exact .inl ⟨hid, rfl⟩
  · exact .inr h

end Machine

/-- The manager with the same settings and blocks; factories, timers and watches may differ. -/
structure Manager.SameBlocks (m m' : Manager K) : Prop where
  settings : m'.settings = m.settings
  blocks : m'.blocks = m.blocks
  built : m'.built = m.built

/-! ## Steps -/

/-- What may happen to a machine. -/
inductive Step : Machine K → Machine K → Prop
  /-- A notice is made. -/
  | notice (s : Machine K) (n : Notice) : Step s { s with events := .notice n :: s.events }
  /-- A block makes a remark. -/
  | remark (s : Machine K) (m : K.Remark) : Step s { s with events := .remark m :: s.events }
  /-- It is recorded that a timer was armed. -/
  | armed (s : Machine K) (x : Timer) : Step s { s with events := .armed x :: s.events }
  /-- It is recorded that a descriptor was watched. -/
  | enlisted (s : Machine K) (w : Watch) : Step s { s with events := .enlisted w :: s.events }
  /-- Something happens on the host. -/
  | host (s : Machine K) (h : Host) : Step s { s with host := h }
  /-- Factories, timers or watches change. -/
  | aside {s : Machine K} {m : Manager K} (h : s.manager.SameBlocks m) :
    Step s { s with manager := m }
  /-- A block is added. -/
  | build {s : Machine K} {id : BlockId} {type : String} {factory : K.Factory} (c : K.Contents)
    (hid : id.isSink = false) (hnew : s.manager.blocks.get? id = none)
    (hfac : s.manager.factories.get? type = some factory) :
    Step s { s with
      manager.blocks :=
        s.manager.blocks.insert id { serial := s.manager.built, type, contents := some c }
      manager.built := s.manager.built + 1
      events := .built s.manager.built type factory :: s.events }
  /-- A hook begins. -/
  | enter {s : Machine K} {id : BlockId} {e : Entry K} {hook : Hook}
    (he : s.manager.blocks.get? id = some e) (hc : e.contents ≠ none)
    (hadm : e.Admits s.manager hook) : Step s ((s.marked id hook).entered e.serial id hook)
  /-- A hook ends, and its instance is live. -/
  | regain {s : Machine K} {f : Frame} {fs : List Frame} {e : Entry K} (c : K.Contents)
    (hs : s.stack = f :: fs) (he : s.manager.blocks.get? f.id = some e)
    (hserial : e.serial = f.serial) : Step s (s.regained f c)
  /-- A hook ends, and its instance is not live any more. -/
  | part {s : Machine K} {f : Frame} {fs : List Frame} (c : K.Contents) (hs : s.stack = f :: fs)
    (hgone : ∀ e, s.manager.blocks.get? f.id = some e → e.serial ≠ f.serial) : Step s (s.parted f c)
  /-- A block is deleted. -/
  | delete {s : Machine K} {id : BlockId} {e : Entry K} {c : K.Contents} {factory : K.Factory}
    (he : s.manager.blocks.get? id = some e) (hc : e.contents = some c) (hst : e.state = .stopped)
    (hfac : s.manager.factories.get? e.type = some factory) : Step s (s.deleted id e c factory)
  /-- A block that is not inside of a hook is dropped. -/
  | dropIdle {s : Machine K} {id : BlockId} {e : Entry K} {c : K.Contents}
    (he : s.manager.blocks.get? id = some e) (hc : e.contents = some c) :
    Step s ((s.without id).released e.serial c)
  /-- A block that is inside of a hook is dropped. -/
  | dropBusy {s : Machine K} {id : BlockId} {e : Entry K}
    (he : s.manager.blocks.get? id = some e) (hc : e.contents = none) : Step s (s.without id)

abbrev Steps : Machine K → Machine K → Prop := Relation.ReflTransGen Step

namespace Steps

variable {s t u : Machine K}

theorem trans (h : Steps s t) (h' : Steps t u) : Steps s u := Relation.ReflTransGen.trans h h'

theorem tail (h : Steps s t) (h' : Step t u) : Steps s u := Relation.ReflTransGen.tail h h'

/-- What each step keeps is kept by all of them. -/
theorem preserve {P : Machine K → Prop} (hP : ∀ s t, P s → Step s t → P t) (h : Steps s t)
    (hs : P s) : P t := by
  induction h with
  | refl => exact hs
  | tail _ hstep ih => exact hP _ _ ih hstep

end Steps

end BlockFlow
