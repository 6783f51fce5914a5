import BlockFlow.Host.Basic

/-!
# What happens around an engine

Clients come and go, sockets get ready, files appear and time passes. Each such action has an
outcome.
-/

namespace BlockFlow.Host

/-- Something that happens on the host. -/
inductive Action where
  | setSocket (name : String) (reading : Reading)
  | pair (a b : Fd)
  | write (fd : Fd) (data : List UInt8)
  | read (fd : Fd)
  | close (fd : Fd)
  | makeFile (path : String) (content : List UInt8)
  | makeDirectory (path : String)
  | isThere (path : String)
  | connect (client path : String)
  | send (client : String) (data : List UInt8)
  | receive (client : String)
  | halfClose (client : String)
  | hangUp (client : String)
  | advance (d : Duration)
  deriving Repr

/-- What came of an action. -/
inductive Outcome where
  | done
  | flag (b : Bool)
  | count (n : Nat)
  | bytes (bs : List UInt8)
  | received (text : String) (ending : Ending)
  | failed (f : Failure)
  | noClient
  | noManualClock
  /-- The time asked for is no instant. -/
  | noInstant
  deriving Repr

/-- An outcome without a result of its own, and the host after it. -/
def plain (r : Except Failure Unit × Host) : Outcome × Host :=
  match r with
  | (.ok (), h) => (.done, h)
  | (.error f, h) => (.failed f, h)

/-- The host with the files of an operation on them, if it succeeded. -/
def withFiles (h : Host) (r : Except Failure Files) : Host :=
  match r with
  | .ok files => { h with files }
  | .error _ => h

/-- An action is done. A file or a directory that cannot be made is passed over, and so is sending
nothing. -/
def act (h : Host) : Action → Outcome × Host
  | .setSocket name reading => (.done, { h with sockets := h.sockets.insert name reading })
  | .pair a b => (.done, h.pair a b)
  | .write fd data =>
    match h.send fd data with
    | (.ok sent, h) => (.count sent, h)
    | (.error f, h) => (.failed f, h)
  | .read fd =>
    let ((bs, _), h) := h.receive fd
    (.bytes bs, h)
  | .close fd => (.done, h.close fd)
  | .makeFile path content => (.done, h.withFiles (h.files.write path content))
  | .makeDirectory path => (.done, h.withFiles (h.files.makeDirectory path))
  | .isThere path => (.flag (h.files.exists? path), h)
  | .connect client path => plain (h.connect client path)
  | .send client data =>
    match h.clients.get? client with
    | some fd => if data.isEmpty then (.done, h) else plain (h.transmit fd data)
    | none => (.noClient, h)
  | .receive client =>
    match h.clients.get? client with
    | some fd =>
      let ((bs, ending), h) := h.receive fd
      (.received (String.ofList (Text.Utf8.decodeLenient bs)) ending, h)
    | none => (.noClient, h)
  | .halfClose client =>
    match h.clients.get? client with
    | some fd => (.flag true, h.halfClose fd)
    | none => (.noClient, h)
  | .hangUp client =>
    let (known, h) := h.hangUp client
    (.flag known, h)
  | .advance d =>
    match h.clock with
    | .running _ => (.noManualClock, h)
    | .manual now =>
      match now.later? d with
      | some later => (.done, { h with clock := .manual later })
      | none => (.noInstant, h)

theorem plain_ne_noInstant (r : Except Failure Unit × Host) : (plain r).1 ≠ .noInstant := by
  unfold plain
  split <;> exact Outcome.noConfusion

/-- Nothing but moving the clock can come to a time that is no instant. -/
theorem exists_of_act_eq_noInstant {h : Host} {a : Action} (ha : (h.act a).1 = .noInstant) :
    ∃ d, a = .advance d := by
  cases a with
  | advance d => exact ⟨d, rfl⟩
  | connect client path => exact absurd ha (plain_ne_noInstant _)
  | send client data =>
    simp only [act] at ha
    split at ha
    · split at ha
      · cases ha
      · exact absurd ha (plain_ne_noInstant _)
    · cases ha
  | write fd data =>
    simp only [act] at ha
    split at ha <;> cases ha
  | receive client =>
    simp only [act] at ha
    split at ha <;> cases ha
  | halfClose client =>
    simp only [act] at ha
    split at ha <;> cases ha
  | setSocket | pair | read | close | makeFile | makeDirectory | isThere | hangUp => cases ha

end BlockFlow.Host
