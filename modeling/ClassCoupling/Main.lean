import ClassCoupling.FileTree.Listing
import ClassCoupling.Instant
import ClassCoupling.Program
import Std.Time.DateTime.Timestamp

/-!
# The command

The files of the working directory are listed on standard input, the way
`find . -printf '%y\t%p\t%l\n'` prints them, and read from there.
-/

namespace ClassCoupling.Command

def dropNewline (line : String) : String :=
  String.ofList (line.toList.reverse.dropWhile (· = '\n')).reverse

partial def addListing (input : IO.FS.Stream) (files : FileTree) : IO FileTree := do
  let line ← input.getLine
  if line = "" then return files
  match FileTree.Listed.ofLine? (dropNewline line) with
  | some (.file path) => addListing input (files.addListed (← IO.FS.readBinFile path) (.file path))
  | some listed => addListing input (files.addListed .empty listed)
  | none => addListing input files

def workingDirectory : IO FileTree.Location :=
  return (Text.split '/' (Path.ofText (toString (← IO.currentDir)))).filter (· ≠ "")

/-- The file a run was asked to write, if it got that far. -/
def written (arguments : List String) (outcome : Program.Outcome) : Option (String × ByteArray) :=
  match Arguments.parse arguments, outcome.exitCode with
  | .ok a, .success | .ok a, .cyclesDetected =>
    a.output.bind fun path => (outcome.files.read (Path.ofText path)).toOption.map (path, ·)
  | _, _ => none

end ClassCoupling.Command

open ClassCoupling in
def main (arguments : List String) : IO UInt32 := do
  let files ← Command.addListing (← IO.getStdin) (.empty (← Command.workingDirectory))
  let now ← Std.Time.Timestamp.now
  let instant : Instant := ⟨now.toNanosecondsSinceUnixEpoch.val.toNat⟩
  let outcome := Program.run instant.text files arguments
  IO.eprint outcome.messageText
  IO.print outcome.output
  if let some (path, content) := Command.written arguments outcome then
    IO.FS.writeBinFile path content
  return outcome.exitCode.number.toUInt32
