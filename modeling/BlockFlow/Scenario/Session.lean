import BlockFlow.Scenario.Programmed

/-!
# Sessions

A session plays a scenario on an engine, step by step, and reports after every step what came of it,
what programmed blocks saw of it, and what the engine told.

1. `Numbering`: programmed blocks are numbered as they are built.
2. `Report`, `Session.play`, `Session.finish?`: steps with their reports.
-/

namespace BlockFlow.Scenario

/-- The serials of programmed blocks, in the order in which they were built. -/
abbrev Numbering := List Nat

namespace Numbering

/-- The number of the programmed block of a serial, from one on. -/
def number? (n : Numbering) (serial : Nat) : Option Nat := (n.idxOf? serial).map (· + 1)

/-- What is seen of an event, and the numbering after it. -/
def sight (n : Numbering) : Event kit → Option Sight × Numbering
  | .notice _ => (none, n)
  | .built serial type factory =>
    if factory.isProgrammed then (some (.built type (n.length + 1)), n ++ [serial]) else (none, n)
  | .entered serial id hook => (if n.contains serial then some (.called id hook) else none, n)
  | .left _ => (none, n)
  | .remark r => (some (.remarked r), n)
  | .returned _ type factory =>
    (if factory.isProgrammed then some (.returned type) else none, n)
  | .released serial => ((n.number? serial).map .released, n)
  | .armed _ | .enlisted _ => (none, n)

/-- What is seen of events in order, and the numbering after them. -/
def sights (n : Numbering) : List (Event kit) → List Sight × Numbering
  | [] => ([], n)
  | e :: es =>
    let (seen, n) := n.sight e
    let (rest, n) := n.sights es
    (seen.toList ++ rest, n)

end Numbering

def notices (es : List (Event kit)) : List Notice :=
  es.filterMap fun
    | .notice n => some n
    | _ => none

/-- What is reported of a step. -/
structure Report where
  outcome : Outcome
  sights : List Sight
  notices : List Notice
  /-- The records of live blocks, the number of timers and that of watches after the step. -/
  summary : String × Nat × Nat

/-- The outcome that the result of a run is. -/
def Outcome.ofResult {α : Type} (f : α → Outcome) : Except Breakdown α → Outcome
  | .ok a => f a
  | .error _ => .broken

/-- A scenario that is played. -/
structure Session where
  machine : Machine kit
  numbering : Numbering := []

namespace Session

/-- How many hooks may be called inside of each other, and how many turns a loop may have. -/
def fuel : Nat := 1000000

/-- A session before its first step, with the built-in factories. -/
def begin? (settings : Settings) (host : Host) : Option Session := do
  let empty : Machine kit := { manager := .fresh settings, host }
  let (_, machine) ← empty.run? (Builtin.registerAll Maker.builtin)
  return { machine := { machine with events := [] } }

/-- What is reported of an outcome and of the events that the machine has recorded. -/
def report (s : Session) (outcome : Outcome) (machine : Machine kit) : Report × Session :=
  let events := machine.events.reverse
  let (sights, numbering) := s.numbering.sights events
  let m := machine.manager
  let summary := (m.dump, m.timers.size, m.watches.size)
  ({ outcome, sights, notices := notices events, summary },
    { machine := { machine with events := [] }, numbering })

def play? (s : Session) (step : Step Maker) : Option (Report × Session) := do
  let (result, machine) ← s.machine.run? (Run.play fuel (step.play .sink .empty))
  return s.report (.ofResult Prod.fst result) machine

/-- The engine comes to its end. -/
def finish? (s : Session) : Option Report := do
  let (result, machine) ← s.machine.run? (Run.dispose fuel)
  return (s.report (.ofResult (fun _ => .done) result) machine).1

/-- Steps are played in order, then the engine comes to its end: the reports. -/
def playAll? (s : Session) : List (Step Maker) → Option (List Report)
  | [] => return [← s.finish?]
  | step :: steps => do
    let (report, s) ← s.play? step
    return report :: (← s.playAll? steps)

end Session

end BlockFlow.Scenario
