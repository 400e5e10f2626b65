import Folio.Json
import Folio.Render.CommandLine
import Folio.Render.Folder
import Folio.Render.Renderer
import Folio.Session.Compositor

/-! # The program

One run of the program: a document is read and rendered to a file, or its tree is printed. Reading
comes first, then the settings, then the document; the first that is wrong decides, and a file is
written only when there is a document.
-/

namespace Folio

inductive Outcome where
  | printed (text : String)
  | document (path : String) (bytes : Bytes)
  | failed (error : RenderError)

namespace Program

def decode (bytes : Bytes) : Option String := String.fromUTF8? ⟨bytes.toArray⟩

/-- The markup out of what was read, or why there is none. The complaint about a file names it. -/
def markup (input : String) (content : Except String Bytes) : Except RenderError String :=
  let text := content.bind fun bytes =>
    match decode bytes with
    | some text => .ok text
    | none => .error "stream did not contain valid UTF-8"
  text.mapError fun complaint =>
    .file (if input = "-" then complaint
      else "Failed to read markup from '" ++ input ++ "': " ++ complaint)

def choices (command : Command) : Except RenderError (List Choice) :=
  let order := if command.grouped then [Choice.order .grouped] else []
  match command.timeout with
  | none => .ok order
  | some seconds =>
    match Number.Duration.ofSeconds seconds with
    | .ok limit => .ok (order ++ [.timeout limit])
    | .error why => .error (.config (.timeout seconds why))

def renderer (command : Command) : Except RenderError (Renderer × List Record) := do
  let choices ← choices command
  (Builder.ofChoices choices).build.mapError .config

def treeText (root : Markup.Element) : String :=
  (Json.object [(root.name, root.toJson)]).pretty ++ "\n"

def rendering (command : Command) : Record :=
  .info ("Rendering " ++ command.input ++ " to " ++ command.output)

/-- Carries out a command on what was read, up to the writing of the file. -/
def respond (command : Command) (content : Except String Bytes) : Outcome × List Record :=
  match markup command.input content with
  | .error e => (.failed e, [])
  | .ok text =>
    match renderer command with
    | .error e => (.failed e, [])
    | .ok (renderer, records) =>
      if command.dumpTree then
        match renderer.parse text with
        | .error e => (.failed e, records)
        | .ok (root, more) => (.printed (treeText root), records ++ more)
      else
        let report := renderer.render Compositor.backend text
        let records := records ++ [rendering command] ++ report.records
        match report.result with
        | some (.ok bytes) => (.document command.output bytes, records)
        | some (.error e) => (.failed e, records)
        | none => (.failed (.completion .abandoned), records)

structure Exit where
  code : UInt8
  stdout : String := ""
  complaint : Option String := none
  folder : Folder

def complain (error : RenderError) : String := "error: " ++ error.message

def run (arguments : List String) (stdin : Bytes) (folder : Folder) : Exit :=
  match CommandLine.parse arguments with
  | .error .usage => { code := 2, folder := folder }
  | .error .help => { code := 0, stdout := CommandLine.helpText, folder := folder }
  | .error .version => { code := 0, stdout := CommandLine.versionText, folder := folder }
  | .ok command =>
    let content :=
      if command.input = "-" then .ok stdin
      else (folder.read command.input).mapError FileError.message
    match (respond command content).1 with
    | .printed text => { code := 0, stdout := text, folder := folder }
    | .failed e => { code := 1, complaint := some (complain e), folder := folder }
    | .document path bytes =>
      match folder.write path bytes with
      | .ok folder => { code := 0, folder := folder }
      | .error e => { code := 1, complaint := some (complain (.file e.message)), folder := folder }

end Program

end Folio
