import StackScript.CommandLine

set_option autoImplicit false

namespace StackScript.CommandLine

/-- The number of a system error, which may come negated. -/
def errorNumber (code : UInt32) : UInt32 :=
  if code.toInt32 < 0 then 0 - code else code

def failureOf : IO.Error → ReadFailure
  | .noFileOrDirectory .. => .missing
  | .permissionDenied .. => .denied
  | .inappropriateType _ code _ =>
    if errorNumber code = 21 then .isDirectory else .notDirectory
  | .invalidArgument _ code details =>
    if errorNumber code = 36 then .nameTooLong else .other details
  | error => .other (toString error)

partial def readAll (stream : IO.FS.Stream) (read : ByteArray) : IO ByteArray := do
  let chunk ← stream.read 65536
  if chunk.isEmpty then return read else readAll stream (read ++ chunk)

def readInput : Input → IO (Except ReadFailure String)
  | .sample => return .ok sampleSource
  | .standard => return decode (← readAll (← IO.getStdin) .empty)
  | .file path => do
    try return decode (← IO.FS.readBinFile path)
    catch error => return .error (failureOf error)

end StackScript.CommandLine

open StackScript.CommandLine in
def main (words : List String) : IO UInt32 := do
  let report ← respond readInput words
  IO.print report.stdout
  IO.eprint report.stderr
  return report.status.toUInt32
