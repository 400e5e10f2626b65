import Folio.Render.Program

/-! # The program's outside

Files, streams and exit codes of a real run. Everything else is decided by `Program.respond`.
-/

namespace Folio

def complaint : IO.Error → String
  | .noFileOrDirectory _ _ _ => FileError.message .missing
  | .inappropriateType _ _ _ => FileError.message .isFolder
  | .permissionDenied _ _ _ => "Permission denied (os error 13)"
  | e => toString e

def levelName : Level → String
  | .warn => "WARN"
  | .info => "INFO"
  | .debug => "DEBUG"
  | .trace => "TRACE"

def shown (verbosity : Nat) : Level → Bool
  | .warn | .info => true
  | .debug => 0 < verbosity
  | .trace => 1 < verbosity

def readInput (input : String) : IO (Except String Bytes) := do
  try
    let bytes ← if input = "-" then (← IO.getStdin).readBinToEnd else IO.FS.readBinFile input
    return .ok bytes.toList
  catch e => return .error (complaint e)

def fail (error : RenderError) : IO UInt32 := do
  IO.eprintln (Program.complain error)
  return 1

def execute (command : Command) : IO UInt32 := do
  let content ← readInput command.input
  let (outcome, records) := Program.respond command content
  for record in records do
    if shown command.verbosity record.level then
      IO.eprintln ("[" ++ levelName record.level ++ "] " ++ record.text)
  match outcome with
  | .printed text =>
    IO.print text
    return 0
  | .failed error => fail error
  | .document path bytes =>
    try
      IO.FS.writeBinFile path ⟨bytes.toArray⟩
      return 0
    catch e => fail (.file (complaint e))

end Folio

open Folio

def main (arguments : List String) : IO UInt32 := do
  match CommandLine.parse arguments with
  | .ok command => execute command
  | .error .usage =>
    IO.eprintln "error: the arguments cannot be understood\n\nFor more information, try '--help'."
    return 2
  | .error .help =>
    IO.print CommandLine.helpText
    return 0
  | .error .version =>
    IO.print CommandLine.versionText
    return 0
