import BlockFlow.Buffer
import BlockFlow.Keyed
import BlockFlow.Script

/-!
# The manager and its machine

1. `Kit`: the kinds of blocks that an engine runs.
2. `Entry`, `Manager`: live blocks, and what the engine keeps about them.
3. `Event`, `Machine`: the manager with its host and the record of what happened.
4. `Run`: what the engine does, step by step. A run may break off, and one that is given too little
   fuel has no result. A moment of a run is a point at which a script has control.
-/

namespace BlockFlow

/-- Kinds of blocks: how they are built, what their hooks do, what they report of themselves and
what is left of them on the host when they are released. -/
structure Kit where
  Factory : Type
  Contents : Type
  Remark : Type
  /-- What a factory builds, if it can, and what it does on the host for it. -/
  build : Factory → Host → Option Contents × Host
  /-- The script of a hook; its state is the contents that it leaves, which are the given ones until
  it says otherwise. -/
  hook : Contents → BlockId → Hook → Script Factory Remark Contents Reply
  /-- A report is written into a buffer: its length as the block tells it, and the buffer. -/
  report : Contents → List UInt8 → Nat × List UInt8
  release : Contents → Host → Host

/-- A live block. Its number is the key of its entry. -/
structure Entry (K : Kit) where
  /-- The number of the instance; no other one ever has it. -/
  serial : Nat
  type : String
  state : State := .stopped
  /-- The bindings in the order in which they were made. -/
  bindings : List Binding := []
  /-- The contents of the block; they are with the hook while the block is inside of one. -/
  contents : Option K.Contents

/-- Whether a block is inside of one of its hooks. -/
def Entry.isBusy {K : Kit} (e : Entry K) : Bool := e.contents.isNone

/-- The report of contents, as far as it fits its buffer. -/
def Kit.stats (K : Kit) (c : K.Contents) : String :=
  let (n, buffer) := K.report c (Buffer.zeros Buffer.statsCapacity)
  Buffer.textIn buffer (min n Buffer.statsCapacity)

/-- A block as it is seen from outside. -/
def Entry.view {K : Kit} (e : Entry K) (id : BlockId) : BlockView :=
  ⟨id, e.type, e.state, e.bindings, e.contents.map K.stats⟩

/-- The record of a live block: its number, type and state. -/
def Entry.record {K : Kit} (e : Entry K) (id : BlockId) : String :=
  s!"{id.toText} {e.type} {textOfNat e.state.code};"

/-- What an engine keeps. -/
structure Manager (K : Kit) where
  settings : Settings
  factories : Keyed String K.Factory := .empty
  blocks : Keyed BlockId (Entry K) := .empty
  timers : TimerList := .empty
  watches : WatchTable
  /-- Whether the main loop is to end. -/
  cancelled : Bool := false
  /-- The number of instances built so far. -/
  built : Nat := 0

namespace Manager

variable {K : Kit}

/-- A manager without factories and blocks. -/
def fresh (settings : Settings) : Manager K :=
  { settings, watches := .empty settings.maxFd }

/-- The records of all live blocks, in the order of their numbers. -/
def dump (m : Manager K) : String :=
  String.join (m.blocks.toList.map fun (id, e) => e.record id)

/-- All live blocks as they are seen from outside. -/
def views (m : Manager K) : List BlockView := m.blocks.toList.map fun (id, e) => e.view id

end Manager

/-- Something that happened. -/
inductive Event (K : Kit) where
  | notice (n : Notice)
  /-- A factory built an instance. -/
  | built (serial : Nat) (type : String) (factory : K.Factory)
  /-- A hook of an instance began. -/
  | entered (serial : Nat) (id : BlockId) (hook : Hook)
  /-- The hook of an instance that began last ended. -/
  | left (serial : Nat)
  /-- A block made a remark. -/
  | remark (m : K.Remark)
  /-- An instance was handed back to a factory. -/
  | returned (serial : Nat) (type : String) (factory : K.Factory)
  /-- An instance was released. -/
  | released (serial : Nat)
  /-- A timer was armed. -/
  | armed (t : Timer)
  /-- A descriptor was watched for a block. -/
  | enlisted (w : Watch)

/-- A manager, its host, and what happened, the latest first. -/
structure Machine (K : Kit) where
  manager : Manager K
  host : Host
  events : List (Event K) := []

/-- Why a run breaks off. -/
inductive Breakdown where
  /-- The clock was to be moved beyond the last instant. -/
  | clock
  deriving Repr, DecidableEq

/-- Steps of the engine. A run that breaks off leaves the machine as it was then. -/
inductive Run (K : Kit) (α : Type) where
  /-- It has a result. -/
  | done (a : α)
  /-- It breaks off. -/
  | broken (b : Breakdown)
  /-- It was given too little fuel. -/
  | exhausted
  /-- It looks at the machine. -/
  | look (next : Machine K → Run K α)
  /-- It leaves the machine as it says. -/
  | put (s : Machine K) (next : Run K α)
  /-- A script has control before it goes on. -/
  | moment (next : Run K α)

/-- The result of a run that begins with a machine, and the machine after it. -/
def Machine.run? {K : Kit} {α : Type} :
    Machine K → Run K α → Option (Except Breakdown α × Machine K)
  | s, .done a => some (.ok a, s)
  | s, .broken b => some (.error b, s)
  | _, .exhausted => none
  | s, .look next => s.run? (next s)
  | _, .put s next => s.run? next
  | s, .moment next => s.run? next

namespace Run

variable {K : Kit} {α β : Type}

/-- The run that goes on with the result of another one. -/
def andThen : Run K α → (α → Run K β) → Run K β
  | .done a, f => f a
  | .broken b, _ => .broken b
  | .exhausted, _ => .exhausted
  | .look next, f => .look fun s => andThen (next s) f
  | .put s next, f => .put s (andThen next f)
  | .moment next, f => .moment (andThen next f)

/-- The run that goes on in another way when it breaks off. -/
def rescue : Run K α → (Breakdown → Run K α) → Run K α
  | .done a, _ => .done a
  | .broken b, f => f b
  | .exhausted, _ => .exhausted
  | .look next, f => .look fun s => rescue (next s) f
  | .put s next, f => .put s (rescue next f)
  | .moment next, f => .moment (rescue next f)

instance : Monad (Run K) where
  pure := .done
  bind := andThen

instance : MonadStateOf (Machine K) (Run K) where
  get := .look .done
  set s := .put s (.done ())
  modifyGet f := .look fun s =>
    let r := f s
    .put r.2 (.done r.1)

instance : MonadExceptOf Breakdown (Run K) where
  throw := .broken
  tryCatch := rescue

theorem andThen_done (r : Run K α) : r.andThen .done = r := by
  induction r with
  | done | broken | exhausted => rfl
  | look next ih => simp only [andThen, ih]
  | put s next ih => simp only [andThen, ih]
  | moment next ih => simp only [andThen, ih]

theorem andThen_assoc {γ : Type} (r : Run K α) (f : α → Run K β) (g : β → Run K γ) :
    (r.andThen f).andThen g = r.andThen fun a => (f a).andThen g := by
  induction r with
  | done | broken | exhausted => rfl
  | look next ih => simp only [andThen, ih]
  | put s next ih => simp only [andThen, ih]
  | moment next ih => simp only [andThen, ih]

instance : LawfulMonad (Run K) := .mk' (Run K) andThen_done (fun _ _ => rfl) andThen_assoc

/-- There was too little fuel. -/
def outOfFuel : Run K α := .exhausted

/-- A moment at which a script has control. -/
def pause : Run K Unit := .moment (.done ())

/-- A run with something that is done when it breaks off, before all that waits for it breaks off
too. -/
def onBreak (r : Run K α) (last : Run K Unit) : Run K α :=
  tryCatch r fun b => do
    last
    throw b

def manager : Run K (Manager K) := return (← get).manager

def host : Run K Host := return (← get).host

def modifyManager (f : Manager K → Manager K) : Run K Unit :=
  modify fun s => { s with manager := f s.manager }

def onHost (f : Host → α × Host) : Run K α :=
  modifyGet fun s =>
    let r := f s.host
    (r.1, { s with host := r.2 })

def record (e : Event K) : Run K Unit := modify fun s => { s with events := e :: s.events }

/-- The manager is changed by what an event tells. -/
def commit (e : Event K) (f : Manager K → Manager K) : Run K Unit :=
  modify fun s => { s with manager := f s.manager, events := e :: s.events }

def notify (n : Notice) : Run K Unit := record (.notice n)

def refuse {ε : Type} (n : Notice) (e : ε) : Run K (Except ε α) := do
  notify n
  return .error e

/-- The entry of a live block is changed. -/
def modifyEntry (id : BlockId) (f : Entry K → Entry K) : Run K Unit :=
  modifyManager fun m => { m with blocks := m.blocks.modify id f }

end Run

/-- How a hook of a block is called: nothing comes back if there is no such block, or if it is
inside of one of its hooks. -/
abbrev Call (K : Kit) := BlockId → Hook → Run K (Option Reply)

end BlockFlow
