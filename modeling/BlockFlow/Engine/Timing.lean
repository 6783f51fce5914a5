import BlockFlow.Manager

/-!
# Timers of blocks

A live block arms timers for itself or for others. A check fires all timers that have expired at the
time when it begins; each one leaves the list before its owner is called.
-/

namespace BlockFlow.Run

variable {K : Kit}

/-- A timer of a live block is armed. -/
def arm (owner : BlockId) (tid : TimerId) (delay : Duration) (arg : Payload) :
    Run K (Except EngineError Unit) := do
  if (← manager).blocks.contains owner then
    match (← onHost (·.readClock)).later? delay with
    | none => refuse (.timerOutOfRange owner tid) (.delayOutOfRange delay)
    | some expiration => do
      let t : Timer := ⟨owner, tid, expiration, arg⟩
      notify (.timerArmed owner tid delay)
      commit (.armed t) fun m => { m with timers := m.timers.add t }
      return .ok ()
  else refuse (.timerUnknownOwner owner tid) (.blockNotFound owner)

def disarm (owner : BlockId) (tid : TimerId) : Run K Unit := do
  let (armed, timers) := (← manager).timers.remove owner tid
  if armed then notify (.timerDisarmed owner tid)
  modifyManager fun m => { m with timers }

def disarmAll : Run K Unit := modifyManager fun m => { m with timers := .empty }

/-- The owner of a timer that has expired is called. -/
def deliverTimer (call : Call K) (t : Timer) : Run K Unit := do
  if (← manager).blocks.contains t.owner then
    notify (.timerExpired t.owner t.tid)
    discard (call t.owner (.timer t))
  else notify (.timerOrphaned t.owner t.tid)

/-- Timers that have expired at a time fire, at most `n` of them: how many, with those before. -/
def fireUntil (call : Call K) (now : Instant) : Nat → (fired : Nat) → Run K Nat
  | 0, _ => outOfFuel
  | n + 1, fired => do
    let (timer, timers) := (← manager).timers.popExpired now
    match timer with
    | none => return fired
    | some t => do
      modifyManager fun m => { m with timers }
      deliverTimer call t
      fireUntil call now n (fired + 1)

/-- All timers that have expired fire: how many. The clock is looked at once. -/
def fire (call : Call K) (n : Nat) : Run K Nat := do
  fireUntil call (← onHost (·.readClock)) n 0

end BlockFlow.Run
