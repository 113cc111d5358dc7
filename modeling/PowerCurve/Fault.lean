/-!
# Faults of devices and files

What can go wrong below the program: a device fails while it delivers bytes, or a file operation is
refused. Every fault has one wording.
-/

namespace PowerCurve

/-- The kinds of failure that a device reports. -/
inductive FaultKind where
  | notFound
  | permissionDenied
  | connectionReset
  | brokenPipe
  | wouldBlock
  | invalidInput
  | invalidData
  | timedOut
  | interrupted
  | unexpectedEnd
  | other
deriving DecidableEq, Repr

/-- What a kind of failure is called when the device does not say more. -/
def FaultKind.text : FaultKind → String
  | .notFound => "entity not found"
  | .permissionDenied => "permission denied"
  | .connectionReset => "connection reset"
  | .brokenPipe => "broken pipe"
  | .wouldBlock => "operation would block"
  | .invalidInput => "invalid input parameter"
  | .invalidData => "invalid data"
  | .timedOut => "timed out"
  | .interrupted => "operation interrupted"
  | .unexpectedEnd => "unexpected end of file"
  | .other => "other error"

/-- Why a file operation is refused. -/
inductive FileError where
  /-- Some component of the path does not exist. -/
  | notFound
  /-- The path exists already. -/
  | alreadyExists
  /-- A component that is not the last one is a file. -/
  | notDirectory
  /-- A file is wanted and the path is a directory. -/
  | isDirectory
  /-- A component, or the whole path, is too long. -/
  | nameTooLong
  /-- The path contains a NUL byte. -/
  | nulByte
  /-- The content of the file is not UTF-8. -/
  | notUtf8
deriving DecidableEq, Repr

/-- The wording of a refused file operation. -/
def FileError.text : FileError → String
  | .notFound => "No such file or directory (os error 2)"
  | .alreadyExists => "File exists (os error 17)"
  | .notDirectory => "Not a directory (os error 20)"
  | .isDirectory => "Is a directory (os error 21)"
  | .nameTooLong => "File name too long (os error 36)"
  | .nulByte => "file name contained an unexpected NUL byte"
  | .notUtf8 => "stream did not contain valid UTF-8"

/-- A fault. -/
inductive Fault where
  /-- A failure that a device reports, in its own words if it has any. -/
  | device (kind : FaultKind) (message : Option String)
  /-- A refused file operation. -/
  | file (cause : FileError)
deriving DecidableEq, Repr

/-- The wording of a fault; the words of a device count even if they are empty. -/
def Fault.text : Fault → String
  | .device kind message => message.getD kind.text
  | .file cause => cause.text

/-- What a fault does to the reading of lines. -/
inductive Fault.Effect where
  /-- Reading goes on as if nothing had happened. -/
  | retried
  /-- The line that is being read is lost and counts as one that cannot be decoded. -/
  | spoilsLine
  /-- Reading is over. -/
  | endsReading
deriving DecidableEq, Repr

/-- Only interruptions and invalid data leave something to read. -/
def Fault.effect : Fault → Fault.Effect
  | .device .interrupted _ => .retried
  | .device .invalidData _ => .spoilsLine
  | .file .notUtf8 => .spoilsLine
  | _ => .endsReading

end PowerCurve
