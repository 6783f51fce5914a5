import BlockFlow.Manager
import BlockFlow.Watch.Poll

/-!
# Descriptors of blocks

A live block has descriptors watched for itself or for others. A poll takes the watches that are
ready and calls their owners one after the other; a watch that was removed meanwhile is passed over.
-/

namespace BlockFlow.Run

variable {K : Kit}

/-- A descriptor is watched for a live block. -/
def watch (w : Watch) : Run K (Except WatchError Unit) := do
  let m ← manager
  if m.blocks.contains w.owner then
    match m.watches.add w with
    | .error e => refuse (.watchRefused w.owner w.source.fd e) e
    | .ok watches => do
      commit (.enlisted w) fun m => { m with watches }
      notify (.watched w.owner w.source.fd)
      return .ok ()
  else refuse (.watchUnknownOwner w.owner w.source.fd) (.unknownOwner w.owner)

/-- A descriptor is not watched any more for some interests. -/
def unwatch (w : Watch) : Run K Unit := do
  notify (.unwatched w.owner w.source.fd)
  modifyManager fun m => { m with watches := m.watches.remove w.source w.interest }

/-- The owner of a ready watch is called. -/
def deliverEvent (call : Call K) (w : Watch) : Run K Unit := do
  let m ← manager
  if !m.watches.contains w.source then notify (.eventUnwatched w.owner w.source.fd)
  else if !m.blocks.contains w.owner then notify (.eventOrphaned w.owner w.source.fd)
  else discard (call w.owner (.event w))

/-- The owners of ready watches are called in order. -/
def deliverEvents (call : Call K) : List Watch → Run K Unit
  | [] => return
  | w :: ws => do
    deliverEvent call w
    deliverEvents call ws

def notifyAll : List Notice → Run K Unit
  | [] => return
  | n :: ns => do
    notify n
    notifyAll ns

/-- Watched descriptors are polled: how many are ready. If none is, the poll waits as long as it
may. -/
def poll (call : Call K) : Run K (Except Host.Failure Nat) := do
  let m ← manager
  let h ← host
  notifyAll ((m.watches.silentOwners h).map .socketSilent)
  match m.watches.poll h with
  | .error f => refuse (.pollFailed f) f
  | .ok [] => do
    onHost fun h => ((), h.wait m.settings.pollTimeout)
    return .ok 0
  | .ok ready => do
    notify (.polled m.watches.size ready.length)
    deliverEvents call ready
    return .ok ready.length

end BlockFlow.Run
