import BlockFlow.Block.Builtin

/-!
# The command line

The engine runs as a program with a text of commands to begin with, a server that listens, and
settings from a file.

1. `Invocation`, `parse`: what the arguments ask for.
2. `settings`, `start?`, `launch`: an engine that is ready to run.
3. `exchange`, `converse?`: lines of a client with the replies to them.
-/

namespace BlockFlow.CommandLine

/-- The name and the version that the program tells. -/
def banner : String := "block-engine 0.1.0\n"

/-- What the program tells of its arguments. -/
def usage : String :=
  String.join (List.map (· ++ "\n")
    ["Pluggable block data-flow engine",
     "",
     "Usage: block-engine [OPTIONS]",
     "",
     "Options:",
     "  -c, --conf <CONF>                    Text configuration applied at startup",
     "  -L, --listen <LISTEN>                Serve configuration commands on this Unix socket path",
     "  -e, --engine-config <ENGINE_CONFIG>  Engine settings (JSON)",
     "  -l, --log-level <LOG_LEVEL>          Log filter directive, overrides the engine settings",
     "  -h, --help                           Print help",
     "  -V, --version                        Print version"])

/-! ## Arguments -/

/-- The options that have a value. -/
inductive Setting where
  | conf
  | listen
  | engineConfig
  | logLevel
  deriving Repr, DecidableEq

namespace Setting

def ofLong? (name : List Char) : Option Setting :=
  if name = "conf".toList then some .conf
  else if name = "listen".toList then some .listen
  else if name = "engine-config".toList then some .engineConfig
  else if name = "log-level".toList then some .logLevel
  else none

def ofLetter? : Char → Option Setting
  | 'c' => some .conf
  | 'L' => some .listen
  | 'e' => some .engineConfig
  | 'l' => some .logLevel
  | _ => none

/-- Whether a value is a path, which cannot be empty. -/
def isPath : Setting → Bool
  | .conf => true
  | .listen => true
  | .engineConfig => true
  | .logLevel => false

end Setting

/-- The values of options. -/
structure Invocation where
  conf : Option String := none
  listen : Option String := none
  engineConfig : Option String := none
  logLevel : Option String := none
  deriving Repr, DecidableEq, Inhabited

namespace Invocation

def get (i : Invocation) : Setting → Option String
  | .conf => i.conf
  | .listen => i.listen
  | .engineConfig => i.engineConfig
  | .logLevel => i.logLevel

def put (i : Invocation) (value : String) : Setting → Invocation
  | .conf => { i with conf := some value }
  | .listen => { i with listen := some value }
  | .engineConfig => { i with engineConfig := some value }
  | .logLevel => { i with logLevel := some value }

/-- An option is given its value; it may be given once, and a path is not empty. -/
def give? (i : Invocation) (s : Setting) (value : List Char) : Option Invocation :=
  if (i.get s).isSome || (s.isPath && value.isEmpty) then none
  else some (i.put (String.ofList value) s)

end Invocation

/-- What arguments ask for. -/
inductive Wish where
  | help
  | version
  /-- They are not understood. -/
  | misused
  | run (i : Invocation)
  deriving Repr, DecidableEq

/-- What a letter after a single hyphen asks for. -/
inductive Letter where
  | help
  | version
  | option (s : Setting)
  | unknown
  deriving Repr, DecidableEq

/-- What a letter asks for. -/
def letter (c : Char) : Letter :=
  if c = 'h' then .help
  else if c = 'V' then .version
  else
    match Setting.ofLetter? c with
    | some s => .option s
    | none => .unknown

/-- Whether an argument is an option rather than a value. -/
def looksLikeOption : List Char → Bool
  | '-' :: _ :: _ => true
  | _ => false

/-- Without its equals sign, the value that stands right after the letter of an option. -/
def attached : List Char → List Char
  | '=' :: value => value
  | value => value

/-- What arguments ask for after some options. -/
def parseFrom (i : Invocation) : List (List Char) → Wish
  | [] => .run i
  | arg :: args =>
    match arg with
    | '-' :: '-' :: [] => if args.isEmpty then .run i else .misused
    | '-' :: '-' :: long =>
      match Text.cutAt? '=' long with
      | some (name, value) =>
        match (Setting.ofLong? name).bind (i.give? · value) with
        | some i => parseFrom i args
        | none => .misused
      | none =>
        if long = "help".toList then .help
        else if long = "version".toList then .version
        else
          match Setting.ofLong? long, args with
          | some s, value :: args =>
            if looksLikeOption value then .misused
            else
              match i.give? s value with
              | some i => parseFrom i args
              | none => .misused
          | _, _ => .misused
    | '-' :: c :: rest =>
      match letter c, rest, args with
      | .help, _, _ => .help
      | .version, _, _ => .version
      | .option s, [], value :: args =>
        if looksLikeOption value then .misused
        else
          match i.give? s value with
          | some i => parseFrom i args
          | none => .misused
      | .option _, [], [] => .misused
      | .option s, value, args =>
        match i.give? s (attached value) with
        | some i => parseFrom i args
        | none => .misused
      | .unknown, _, _ => .misused
    | _ => .misused

/-- What arguments ask for. -/
def parse (args : List String) : Wish := parseFrom {} (args.map (·.toList))

/-! ## Running -/

/-- The number of the server that is asked for on the command line. -/
def serverId : BlockId := ⟨-1⟩

/-- How many hooks may be called inside of each other, and how many turns a loop may have. -/
def fuel : Nat := 1000000

/-- The settings that the program runs with. -/
def settings (files : Host.Files) (i : Invocation) : Except Settings.Problem Settings :=
  match i.engineConfig with
  | none => .ok {}
  | some path => Settings.ofFile files path

/-- The entry of the configuration that names an address. -/
def addressEntry (path : String) : String := s!"path={path}"

/-- A server is added that listens at an address. -/
def addServer (path : String) : Run Builtin.kit Unit := do
  let call := Run.callHook fuel
  discard (Run.add serverId BuiltinKind.server.typeName)
  discard (Run.conf call serverId (addressEntry path))
  discard (Run.start call serverId)

/-- The engine gets its factories, its server and its first commands. -/
def prepare (i : Invocation) : Run Builtin.kit Unit := do
  Builtin.registerAll (K := Builtin.kit) id
  match i.listen with
  | some path => addServer path
  | none => pure ()
  match i.conf with
  | some path => discard (Run.loadFile (Run.callHook fuel) path)
  | none => pure ()

/-- The engine of settings that an invocation asks for, ready to run. -/
def start? (settings : Settings) (host : Host) (i : Invocation) :
    Option (Machine Builtin.kit) := do
  let empty : Machine Builtin.kit := { manager := .fresh settings, host }
  return (← empty.run? (prepare i)).2

/-- What comes of starting the program. -/
inductive Launch where
  /-- It tells something and ends. -/
  | told (text : String)
  /-- The arguments are not understood. -/
  | misused
  /-- The settings cannot be used. -/
  | unusable (complaint : String)
  /-- The first commands do not come to an end. -/
  | endless
  | ready (engine : Machine Builtin.kit)

/-- What is told when the settings in a file cannot be used. -/
def complaint (path : String) : String := s!"Error: loading engine config {path}"

/-- Start the program with arguments. -/
def launch (host : Host) (args : List String) : Launch :=
  match parse args with
  | .help => .told usage
  | .version => .told banner
  | .misused => .misused
  | .run i =>
    match settings host.files i with
    | .error _ => .unusable (complaint (i.engineConfig.getD ""))
    | .ok settings =>
      match start? settings host i with
      | some engine => .ready engine
      | none => .endless

/-- The code that the program ends with. -/
def Launch.code : Launch → Nat
  | .told _ => 0
  | .misused => 2
  | .unusable _ => 1
  | .endless => 1
  | .ready _ => 0

/-! ## Clients -/

/-- The name of the client that talks to the engine. -/
def clientName : String := "client"

/-- The client connects to an address. -/
def connect (path : String) : Run Builtin.kit Unit :=
  discard (Run.onHost (·.act (.connect clientName path)))

/-- The client sends a line, the main loop turns, and the client receives what the server sent. -/
def exchange (line : String) : Run Builtin.kit String := do
  discard (Run.onHost (·.act (.send clientName (bytesOf (line ++ "\n")))))
  Run.runOnce (Run.callHook fuel) fuel
  Run.runOnce (Run.callHook fuel) fuel
  match ← Run.onHost (·.act (.receive clientName)) with
  | .received text _ => return text
  | _ => return ""

/-- The first line of a text with its end, and the text after it. -/
def firstLine (cs : List Char) : List Char × List Char :=
  match cs.dropWhile (· ≠ '\n') with
  | [] => (cs, [])
  | c :: rest => (cs.takeWhile (· ≠ '\n') ++ [c], rest)

/-- Lines are sent one after the other, and after each of them the client reads one line of what it
has received: the replies. -/
def exchangeAll : (unread : List Char) → List String → Run Builtin.kit (List String)
  | _, [] => return []
  | unread, line :: lines => do
    let received ← exchange line
    let (reply, unread) := firstLine (unread ++ received.toList)
    return String.ofList reply :: (← exchangeAll unread lines)

/-- The client connects to an address, sends lines and hangs up, and the engine ends: the replies,
and whether the address is still there. -/
def converse? (s : Machine Builtin.kit) (path : String) (lines : List String) :
    Option (List String × Bool) := do
  let talk : Run Builtin.kit (List String) := do
    connect path
    let replies ← exchangeAll [] lines
    discard (Run.onHost (·.act (.hangUp clientName)))
    Run.dispose fuel
    return replies
  match ← s.run? talk with
  | (.ok replies, s) => return (replies, s.host.files.exists? path)
  | (.error _, _) => none

end BlockFlow.CommandLine
