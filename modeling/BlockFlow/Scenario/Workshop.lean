import BlockFlow.Scenario.Programmed

/-!
# Factories on their own

A workshop tries factories without an engine: registries of factories by type, and the blocks that
were built and not yet handed back, the last one first.
-/

namespace BlockFlow.Scenario

/-- Factories by type. -/
abbrev Makers := Keyed String Maker

/-- A block that was built and not yet handed back. -/
structure Held where
  type : String
  /-- The number of a programmed block. -/
  number : Option Nat
  block : Block

/-- Registries and built blocks. -/
structure Workshop where
  registries : List Makers := [.empty]
  held : List Held := []
  /-- The number of programmed blocks built so far. -/
  built : Nat := 0

/-- What is done in a workshop. -/
inductive Task where
  | register (type : String) (maker : Maker)
  | builtin
  | unregister (type : String)
  | contains (type : String)
  | create (type : String)
  | destroy
  | clone
  | clear

/-- What came of a task. -/
inductive Product where
  | done
  | flag (b : Bool)
  | index (n : Nat)
  | noFactory
  | failed
  /-- A block was built; this is what it reports of itself. -/
  | built (report : List UInt8)
  | handedBack
  | dropped
  | nothingHeld
  deriving Repr

namespace Workshop

/-- The built-in factories are registered. -/
def withBuiltin (makers : Makers) : Makers :=
  [BuiltinKind.hello, .server].foldl (fun t kind => t.insert kind.typeName (.builtin kind)) makers

/-- The number that a block of a factory gets. -/
def number? (w : Workshop) (maker : Maker) : Option Nat :=
  if maker.isProgrammed then some (w.built + 1) else none

/-- A block of a type is built. -/
def create (w : Workshop) (makers : Makers) (type : String) : Product × List Sight × Workshop :=
  match makers.get? type with
  | none => (.noFactory, [], w)
  | some maker =>
    match Block.build maker with
    | none => (.failed, [], w)
    | some block =>
      let (n, buffer) := block.report (Buffer.zeros Buffer.statsCapacity)
      let number := w.number? maker
      (.built (buffer.take n), (number.map (Sight.built type)).toList,
        { w with held := ⟨type, number, block⟩ :: w.held, built := number.getD w.built })

/-- The block that was built last is handed back to the factory of its type. -/
def destroy (w : Workshop) (makers : Makers) : Product × List Sight × Workshop :=
  match w.held with
  | [] => (.nothingHeld, [], w)
  | b :: held =>
    let released := (b.number.map Sight.released).toList
    match makers.get? b.type with
    | none => (.dropped, released, { w with held })
    | some maker =>
      let returned := if maker.isProgrammed then [Sight.returned b.type] else []
      (.handedBack, returned ++ released, { w with held })

def work (w : Workshop) (index : Nat) (task : Task) : Product × List Sight × Workshop :=
  let makers := w.registries.getD index .empty
  let put (makers : Makers) : Workshop := { w with registries := w.registries.set index makers }
  match task with
  | .register type maker => (.done, [], put (makers.insert type maker))
  | .builtin => (.done, [], put (withBuiltin makers))
  | .unregister type => (.flag (makers.contains type), [], put (makers.erase type))
  | .contains type => (.flag (makers.contains type), [], w)
  | .create type => w.create makers type
  | .destroy => w.destroy makers
  | .clone => (.index w.registries.length, [], { w with registries := w.registries ++ [makers] })
  | .clear => (.done, [], put .empty)

end Workshop

end BlockFlow.Scenario
