import LaneScript.Command.Run

/-!
# The command line

The outer layer of the command: it hands the arguments, the disk and the standard input to
`Command.run`, and writes what comes back.
-/

namespace LaneScript

/-- A failure of the system in its own words. -/
def systemFault (code : UInt32) (details : String) : SourceFault :=
  .other (details ++ " (os error " ++ toString code ++ ")")

/-- The fault that a failure of the system is. -/
def faultOf : IO.Error → SourceFault
  | .noFileOrDirectory _ _ _ => .noSuchFile
  | .inappropriateType _ code details => systemFault code details
  | .invalidArgument _ code details => systemFault code details
  | .permissionDenied _ code details => systemFault code details
  | .resourceExhausted _ code details => systemFault code details
  | .otherError code details => systemFault code details
  | failure => .other (toString failure)

/-- The text of some bytes. -/
def decodeBytes (bytes : ByteArray) : Except SourceFault String :=
  match String.fromUTF8? bytes with
  | some text => .ok text
  | none => .error .undecodable

/-- Asks the disk about a path. -/
def askDisk {α : Type} (path : Path) (ask : String → IO (Except SourceFault α)) :
    IO (Except SourceFault α) := do
  if path.text.toList.contains '\x00' then return .error .nulInName
  try ask path.text catch failure => return .error (faultOf failure)

/-- The disk as a source of scripts. -/
def diskProvider : Provider IO where
  read path := askDisk path fun name => do return decodeBytes (← IO.FS.readBinFile name)
  resolve base path := return .ok (base.join ⟨path⟩)
  canonical path := askDisk path fun name => do return .ok ⟨(← IO.FS.realPath name).toString⟩

/-- All bytes of a stream. -/
partial def readAll (stream : IO.FS.Stream) (bytes : ByteArray) : IO ByteArray := do
  let chunk ← stream.read 65536
  if chunk.isEmpty then return bytes else readAll stream (bytes ++ chunk)

end LaneScript

open LaneScript in
/-- Runs the command with the given arguments. -/
def main (args : List String) : IO UInt32 := do
  let input := do return decodeBytes (← readAll (← IO.getStdin) .empty)
  let outcome ← Command.run diskProvider input args
  (← IO.getStdout).putStr outcome.output
  (← IO.getStderr).putStr outcome.errors
  return outcome.exit.toUInt32
