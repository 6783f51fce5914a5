import BlockFlow.Manager

/-!
# The life of a block

A block is added, bound, configured, started, stopped and deleted. Every operation looks first
whether it can be done; if it cannot, nothing but a notice comes of it.

1. `register`, `unregister`: factories.
2. `withIdle`: operations on a live block that is not inside of one of its hooks.
3. `add`, `start`, `stop`, `bind`, `conf`, `del`: the operations on a block.
4. `clear`: the end of all blocks.
-/

namespace BlockFlow.Run

variable {K : Kit}

/-! ## Factories -/

/-- A factory is registered for a type; it replaces the one there is. -/
def register (type : String) (factory : K.Factory) : Run K Unit := do
  let m ← manager
  if m.factories.contains type then notify (.factoryReplaced type)
  else notify (.factoryRegistered type)
  modifyManager fun m => { m with factories := m.factories.insert type factory }

/-- The factory of a type is taken away; whether there was one. -/
def unregister (type : String) : Run K Bool := do
  let m ← manager
  modifyManager fun m => { m with factories := m.factories.erase type }
  return m.factories.contains type

/-! ## Operations on one block -/

/-- A block of a type is built and added, stopped and without bindings. -/
def add (id : BlockId) (type : String) : Run K (Except EngineError Unit) := do
  let m ← manager
  if id.isSink then refuse (.addForbidden id) (.forbiddenId id)
  else if m.blocks.contains id then refuse (.addDuplicate id) (.duplicateBlock id)
  else
    match m.factories.get? type with
    | none => refuse (.addUnknownType type) (.unknownType type)
    | some factory => do
      match ← onHost (K.build factory) with
      | none => refuse (.buildFailed id type) (.constructionFailed type)
      | some contents => do
        record (.built m.built type factory)
        notify (.added id type)
        let entry : Entry K := { serial := m.built, type, contents := some contents }
        modifyManager fun m => { m with blocks := m.blocks.insert id entry, built := m.built + 1 }
        return .ok ()

/-- Something is done with a live block that is not inside of one of its hooks. -/
def withIdle {α : Type} (id : BlockId)
    (f : Entry K → K.Contents → Run K (Except EngineError α)) : Run K (Except EngineError α) := do
  match (← manager).blocks.get? id with
  | none => refuse (.notFound id) (.blockNotFound id)
  | some entry =>
    match entry.contents with
    | none => refuse (.busy id) (.blockBusy id)
    | some contents => f entry contents

/-- A block is started; one that is started already stays so. -/
def start (call : Call K) (id : BlockId) : Run K (Except EngineError Unit) :=
  withIdle id fun entry _ => do
    match entry.state with
    | .started => notify (.alreadyStarted id)
    | .stopped => do
      modifyEntry id ({ · with state := .started })
      notify (.started id)
      discard (call id .start)
    return .ok ()

/-- A block is stopped; one that is stopped already stays so. -/
def stop (call : Call K) (id : BlockId) : Run K (Except EngineError Unit) :=
  withIdle id fun entry _ => do
    match entry.state with
    | .stopped => notify (.alreadyStopped id)
    | .started => do
      modifyEntry id ({ · with state := .stopped })
      notify (.stopped id)
      discard (call id .stop)
    return .ok ()

/-- Whether a binding may lead to a destination. -/
def mayLeadTo (m : Manager K) (dest : BlockId) : Bool :=
  !m.settings.strictBind || dest.isSink || m.blocks.contains dest

/-- A binding is added to a block, which is then told of it. -/
def bind (call : Call K) (id : BlockId) (port : Port) (dest : BlockId) :
    Run K (Except EngineError Unit) := do
  if mayLeadTo (← manager) dest then
    withIdle id fun _ _ => do
      modifyEntry id fun entry => { entry with bindings := entry.bindings ++ [⟨port, dest⟩] }
      notify (.bound id port dest)
      discard (call id (.bind port dest))
      return .ok ()
  else refuse (.bindUnknown id dest) (.blockNotFound dest)

/-- A block is given an entry of its configuration. -/
def conf (call : Call K) (id : BlockId) (entry : String) : Run K (Except EngineError Unit) :=
  withIdle id fun _ _ => do
    notify (.configured id entry)
    discard (call id (.configure entry))
    return .ok ()

/-- An instance ends: the host is freed of what it held. -/
def release (serial : Nat) (contents : K.Contents) : Run K Unit := do
  record (.released serial)
  onHost fun h => ((), K.release contents h)

/-- A block is not live any more. -/
def erase (id : BlockId) : Run K Unit :=
  modifyManager fun m => { m with blocks := m.blocks.erase id }

/-- A stopped block is deleted and handed back to the factory of its type. It is not inside of a
hook, so nothing but its entry refers to it. -/
def del (id : BlockId) : Run K (Except EngineError Unit) :=
  withIdle id fun entry contents => do
    match entry.state with
    | .started => refuse (.deleteStarted id) (.blockStarted id)
    | .stopped => do
      match (← manager).factories.get? entry.type with
      | none => refuse (.deleteUnknownType id entry.type) (.unknownType entry.type)
      | some factory => do
        notify (.deleted id)
        erase id
        record (.returned entry.serial entry.type factory)
        release entry.serial contents
        return .ok ()

/-! ## All blocks -/

/-- A block is dropped although it cannot be deleted. One that is inside of a hook is released when
the hook ends. -/
def force (id : BlockId) : Run K Unit := do
  notify (.forced id)
  let entry := (← manager).blocks.get? id
  erase id
  match entry with
  | some entry =>
    match entry.contents with
    | some contents => release entry.serial contents
    | none => return
  | none => return

/-- The live block of the least number is stopped and deleted, or dropped, until there is none. -/
def clear (call : Call K) : Nat → Run K Unit
  | 0 => outOfFuel
  | n + 1 => do
    match (← manager).blocks.leastKey? with
    | none => return
    | some id => do
      discard (stop call id)
      match ← del id with
      | .ok () => pure ()
      | .error _ => force id
      clear call n

end BlockFlow.Run
