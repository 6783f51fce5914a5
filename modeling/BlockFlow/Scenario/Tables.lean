import BlockFlow.Host.Action
import BlockFlow.Timer
import BlockFlow.Watch.Poll

/-!
# Timers and watches on their own

The timer list and the table of watches are tried without an engine, one task after the other.
-/

namespace BlockFlow.Scenario

/-! ## Timers -/

/-- What is done with a timer list. -/
inductive TimerTask where
  | add (t : Timer)
  | remove (owner : BlockId) (tid : TimerId)
  | pop (now : Instant)
  | next
  | clear

/-- What came of it. -/
inductive TimerProduct where
  | done
  | flag (b : Bool)
  | timer (t : Option Timer)
  | time (t : Option Instant)
  deriving Repr

def TimerTask.work (l : TimerList) : TimerTask → TimerProduct × TimerList
  | .add t => (.done, l.add t)
  | .remove owner tid =>
    let (armed, l) := l.remove owner tid
    (.flag armed, l)
  | .pop now =>
    let (t, l) := l.popExpired now
    (.timer t, l)
  | .next => (.time l.nextExpiration?, l)
  | .clear => (.done, .empty)

/-! ## Watches -/

/-- What is done with a table of watches, or on the host. -/
inductive WatchTask where
  | add (w : Watch)
  | remove (w : Watch)
  | same (a b : Source)
  | show (w : Watch)
  | poll
  | act (a : Host.Action)

/-- What came of it. -/
inductive WatchProduct where
  | added (result : Except WatchError Unit)
  | removed
  | flag (b : Bool)
  | text (s : String)
  | ready (result : Except Host.Failure (List Watch))
  | host (o : Host.Outcome)

def WatchTask.work (t : WatchTable) (h : Host) :
    WatchTask → WatchProduct × WatchTable × Host
  | .add w =>
    match t.add w with
    | .ok t => (.added (.ok ()), t, h)
    | .error e => (.added (.error e), t, h)
  | .remove w => (.removed, t.remove w.source w.interest, h)
  | .same a b => (.flag (a = b), t, h)
  | .show w => (.text w.toText, t, h)
  | .poll => (.ready (t.poll h), t, h)
  | .act a =>
    let (o, h) := h.act a
    (.host o, t, h)

end BlockFlow.Scenario
