import BlockFlow.Basic

/-!
# Failures of the host

Files, streams and polls of the host can fail. Most failures have a number; those that are found
before the system is asked have only a text.
-/

namespace BlockFlow.Host

/-- Why the host did not do what it was asked for. -/
inductive Failure where
  | noSuchEntry
  | noSuchDevice
  | badDescriptor
  | wouldBlock
  | entryExists
  | notADirectory
  | isADirectory
  | invalidArgument
  | brokenPipe
  | nameTooLong
  | addressInUse
  | connectionReset
  | notConnected
  | connectionRefused
  /-- The name of a file has a NUL character. -/
  | nulInName
  /-- The address of a stream has a NUL character. -/
  | nulInAddress
  /-- The address of a stream does not fit its place. -/
  | addressTooLong
  /-- The content of a file is no UTF-8 text. -/
  | notUtf8
  deriving Repr, DecidableEq, Inhabited

namespace Failure

def number? : Failure → Option Nat
  | .noSuchEntry => some 2
  | .noSuchDevice => some 6
  | .badDescriptor => some 9
  | .wouldBlock => some 11
  | .entryExists => some 17
  | .notADirectory => some 20
  | .isADirectory => some 21
  | .invalidArgument => some 22
  | .brokenPipe => some 32
  | .nameTooLong => some 36
  | .addressInUse => some 98
  | .connectionReset => some 104
  | .notConnected => some 107
  | .connectionRefused => some 111
  | .nulInName => none
  | .nulInAddress => none
  | .addressTooLong => none
  | .notUtf8 => none

def description : Failure → String
  | .noSuchEntry => "No such file or directory"
  | .noSuchDevice => "No such device or address"
  | .badDescriptor => "Bad file descriptor"
  | .wouldBlock => "Resource temporarily unavailable"
  | .entryExists => "File exists"
  | .notADirectory => "Not a directory"
  | .isADirectory => "Is a directory"
  | .invalidArgument => "Invalid argument"
  | .brokenPipe => "Broken pipe"
  | .nameTooLong => "File name too long"
  | .addressInUse => "Address already in use"
  | .connectionReset => "Connection reset by peer"
  | .notConnected => "Transport endpoint is not connected"
  | .connectionRefused => "Connection refused"
  | .nulInName => "file name contained an unexpected NUL byte"
  | .nulInAddress => "paths must not contain interior null bytes"
  | .addressTooLong => "path must be shorter than SUN_LEN"
  | .notUtf8 => "stream did not contain valid UTF-8"

def message (f : Failure) : String :=
  match f.number? with
  | some n => s!"{f.description} (os error {n})"
  | none => f.description

end Failure

end BlockFlow.Host
