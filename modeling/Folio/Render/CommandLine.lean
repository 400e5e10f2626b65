import Folio.Number.Numeral

/-! # The command line

Arguments are read from left to right. A word that begins with a dash is an option, or several
short ones in one word; `--` ends the options. An option that takes a value has it in the same
word or in the next one. The first argument that is wrong, or that asks for the version or for
help, decides.
-/

namespace Folio

structure Command where
  /-- The file to read; a dash stands for the standard input. -/
  input : String
  output : String := "tmp.pdf"
  grouped : Bool := false
  /-- In seconds. -/
  timeout : Option Float := none
  dumpTree : Bool := false
  verbosity : Nat := 0

namespace CommandLine

inductive Flag where
  | output
  | grouped
  | timeout
  | dumpTree
  | verbose
  | help
  | version
  deriving Repr, DecidableEq

namespace Flag

def word : Flag → String
  | output => "output"
  | grouped => "grouped"
  | timeout => "timeout"
  | dumpTree => "dump-tree"
  | verbose => "verbose"
  | help => "help"
  | version => "version"

def letter? : Flag → Option Char
  | output => some 'o'
  | verbose => some 'v'
  | help => some 'h'
  | version => some 'V'
  | _ => none

def takesValue : Flag → Bool
  | output | timeout => true
  | _ => false

def all : List Flag := [output, grouped, timeout, dumpTree, verbose, help, version]

def ofWord? (word : String) : Option Flag := all.find? (·.word = word)

def ofLetter? (letter : Char) : Option Flag := all.find? (·.letter? = some letter)

end Flag

inductive Stop where
  | usage
  | help
  | version
  deriving Repr, DecidableEq

structure Reading where
  input : Option String := none
  output : Option String := none
  grouped : Bool := false
  timeout : Option Float := none
  dumpTree : Bool := false
  verbosity : Nat := 0

namespace Reading

/-- Takes an option without a value. Only the verbosity may be asked for more than once. -/
def flag (r : Reading) : Flag → Except Stop Reading
  | .grouped => if r.grouped then .error .usage else .ok { r with grouped := true }
  | .dumpTree => if r.dumpTree then .error .usage else .ok { r with dumpTree := true }
  | .verbose => .ok { r with verbosity := r.verbosity + 1 }
  | .help => .error .help
  | .version => .error .version
  | .output | .timeout => .error .usage

def value (r : Reading) (flag : Flag) (value : String) : Except Stop Reading :=
  match flag with
  | .output =>
    if r.output.isSome || value.isEmpty then .error .usage else .ok { r with output := some value }
  | .timeout =>
    match Number.double? value with
    | some seconds =>
      if r.timeout.isSome then .error .usage else .ok { r with timeout := some seconds }
    | none => .error .usage
  | _ => .error .usage

def positional (r : Reading) (value : String) : Except Stop Reading :=
  if r.input.isSome then .error .usage else .ok { r with input := some value }

def command (r : Reading) : Except Stop Command :=
  match r.input with
  | none => .error .usage
  | some input =>
    .ok
      { input := input, output := r.output.getD "tmp.pdf", grouped := r.grouped,
        timeout := r.timeout, dumpTree := r.dumpTree, verbosity := r.verbosity }

end Reading

/-- A word behind two dashes. The result may be an option that waits for its value. -/
def long (r : Reading) (body : List Char) : Except Stop (Reading × Option Flag) :=
  let (word, rest) := body.span (· ≠ '=')
  match Flag.ofWord? (String.ofList word), rest with
  | none, _ => .error .usage
  | some flag, [] =>
    if flag.takesValue then .ok (r, some flag) else (r.flag flag).map (·, none)
  | some flag, _ :: value => (r.value flag (String.ofList value)).map (·, none)

/-- Letters behind one dash. Behind a letter that takes a value, the rest is the value, with or
without an equals sign in front. -/
def short (r : Reading) : List Char → Except Stop (Reading × Option Flag)
  | [] => .ok (r, none)
  | letter :: rest =>
    match Flag.ofLetter? letter with
    | none => .error .usage
    | some flag =>
      if flag.takesValue then
        match rest with
        | [] => .ok (r, some flag)
        | '=' :: value => (r.value flag (String.ofList value)).map (·, none)
        | value => (r.value flag (String.ofList value)).map (·, none)
      else
        match r.flag flag with
        | .error stop => .error stop
        | .ok r => short r rest

/-- Arguments that are no options, whatever they look like. -/
def trailing (r : Reading) : List String → Except Stop Reading
  | [] => .ok r
  | word :: rest =>
    match r.positional word with
    | .error stop => .error stop
    | .ok r => trailing r rest

/-- Reads arguments. An option that waits for its value gets the next word, unless that is an
option itself. -/
def read (r : Reading) (pending : Option Flag) : List String → Except Stop Reading
  | [] => if pending.isSome then .error .usage else .ok r
  | word :: rest =>
    match word.toList with
    | ['-', '-'] => if pending.isSome then .error .usage else trailing r rest
    | '-' :: '-' :: body =>
      if pending.isSome then .error .usage
      else
        match long r body with
        | .error stop => .error stop
        | .ok (r, pending) => read r pending rest
    | '-' :: letter :: letters =>
      if pending.isSome then .error .usage
      else
        match short r (letter :: letters) with
        | .error stop => .error stop
        | .ok (r, pending) => read r pending rest
    | _ =>
      match pending with
      | some flag =>
        match r.value flag word with
        | .error stop => .error stop
        | .ok r => read r none rest
      | none =>
        match r.positional word with
        | .error stop => .error stop
        | .ok r => read r none rest

def parse (arguments : List String) : Except Stop Command :=
  match read {} none arguments with
  | .error stop => .error stop
  | .ok r => r.command

def helpText : String :=
  "Render a declarative XML document to PDF\n\n" ++
  "Usage: xmlpdf [OPTIONS] <INPUT>\n\n" ++
  "Arguments:\n" ++
  "  <INPUT>  Markup file to render, or `-` to read standard input\n\n" ++
  "Options:\n" ++
  "  -o, --output <OUTPUT>  Where to write the PDF [default: tmp.pdf]\n" ++
  "      --grouped          Gather all siblings sharing a name before moving to the next name\n" ++
  "      --timeout <SECS>   Give up if the document is not complete after this many seconds\n" ++
  "      --dump-tree        Print the parsed element tree as JSON instead of rendering\n" ++
  "  -v, --verbose...       Increase log verbosity (-v debug, -vv trace)\n" ++
  "  -h, --help             Print help\n" ++
  "  -V, --version          Print version\n"

def versionText : String := "xmlpdf 0.1.0\n"

end CommandLine

end Folio
