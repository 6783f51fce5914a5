import BlockFlow.CommandLine

/-!
# The program

The program runs the engine of its command line. Whoever writes to the standard input is the client
of the server that listens: each line is sent to the server, and the reply is written to the
standard output. The program ends with its input.
-/

namespace BlockFlow

/-- The files of a host, with the system's file of a path among them if it can be read. -/
def fetch (files : Host.Files) (path : String) : IO Host.Files := do
  let files := files.makeParents path
  try
    let content ← IO.FS.readBinFile path
    return (files.write path content.toList).toOption.getD files
  catch _ => return files

/-- The files that an invocation names, and the directories of the address that it listens at. -/
def fetchAll (i : CommandLine.Invocation) : IO Host.Files := do
  let files := (i.listen.map Host.Files.fresh.makeParents).getD .fresh
  (i.engineConfig.toList ++ i.conf.toList).foldlM fetch files

/-- Lines of the standard input are sent to the server until there are no more. -/
partial def serve (engine : Machine Builtin.kit) : IO Unit := do
  let line ← (← IO.getStdin).getLine
  if line.isEmpty then return
  match engine.run? (CommandLine.exchange (String.ofList (line.toList.takeWhile (· ≠ '\n')))) with
  | none | some (.error _, _) => return
  | some (.ok reply, engine) =>
    let output ← IO.getStdout
    output.putStr reply
    output.flush
    serve engine

def runProgram (args : List String) : IO UInt32 := do
  let wish := CommandLine.parse args
  let files ← match wish with
    | .run i => fetchAll i
    | _ => pure .fresh
  let launch := CommandLine.launch { Host.running with files } args
  match launch, wish with
  | .told text, _ => IO.print text
  | .unusable complaint, _ => IO.eprintln complaint
  | .misused, _ => IO.eprint CommandLine.usage
  | .ready engine, .run i =>
    let connected := i.listen.bind fun path => engine.run? (CommandLine.connect path)
    serve ((connected.map (·.2)).getD engine)
  | _, _ => pure ()
  return launch.code.toUInt32

end BlockFlow

def main (args : List String) : IO UInt32 := BlockFlow.runProgram args
