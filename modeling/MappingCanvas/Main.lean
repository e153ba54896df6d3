/-
# The command line

The program as it runs on a machine: files are those of the file system, the id of a snapshot is
drawn at random, and the time is that of the clock.
-/

import Std.Time.DateTime.Timestamp
import MappingCanvas.Console.Elapsed
import MappingCanvas.Console.Program

namespace MappingCanvas
namespace Console

/-- The file error that a failed operation amounts to. -/
def fileError : IO.Error → FileError
  | .noFileOrDirectory _ _ _ => .missing
  | .inappropriateType _ 21 _ => .isDirectory
  | .inappropriateType _ 20 _ => .notDirectory
  | e => .other (toString e)

/-- Makes the error of an operation its result. -/
def catching {α : Type} (operation : IO α) : IO (Except FileError α) := do
  try return .ok (← operation)
  catch e => return .error (fileError e)

instance : FileAccess IO where
  readBytes path := catching do return (← IO.FS.readBinFile path).toList
  writeBytes path bytes := catching (IO.FS.writeBinFile path ⟨bytes.toArray⟩)

/-- The hexadecimal digits of some bytes. -/
def hexadecimal (bytes : List UInt8) : String :=
  String.ofList (bytes.flatMap fun b => [Json.hexDigit (b.toNat / 16), Json.hexDigit b.toNat])

/-- An id of sixteen random bytes, marked as such. -/
def idOfBytes (bytes : List UInt8) : String :=
  let marked := bytes.mapIdx fun i b =>
    if i = 6 then b &&& 0x0f ||| 0x40 else if i = 8 then b &&& 0x3f ||| 0x80 else b
  let part (start count : Nat) : String := hexadecimal ((marked.drop start).take count)
  "-".intercalate [part 0 4, part 4 2, part 6 2, part 8 2, part 10 6]

/-- A new id and the time of the clock. -/
def newStamp : IO Stamp := do
  let bytes ← IO.getRandomBytes 16
  let nanos := (← Std.Time.Timestamp.now).toNanosecondsSinceUnixEpoch.val
  let perSecond : Int := Instant.perSecond
  return ⟨idOfBytes bytes.toList, ⟨nanos.fdiv perSecond, (nanos.fmod perSecond).toNat⟩⟩

end Console
end MappingCanvas

/-- Runs the program; a job that was done is timed. -/
def main (arguments : List String) : IO UInt32 := do
  let isJob := match MappingCanvas.Console.parse arguments with
    | .ok (.run _ _) => true
    | _ => false
  let stamp ← MappingCanvas.Console.newStamp
  let start ← IO.monoNanosNow
  let report ← MappingCanvas.Console.run stamp arguments
  for line in report.output do IO.println line
  for line in report.errors do IO.eprintln line
  if isJob && report.exitCode = 0 then
    IO.println ("Done in " ++ MappingCanvas.Console.elapsedText ((← IO.monoNanosNow) - start))
  return report.exitCode.toUInt32
