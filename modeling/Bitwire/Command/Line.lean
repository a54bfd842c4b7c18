import Bitwire.Command.Files
import Bitwire.Command.Listing
import Bitwire.Command.Options
import Bitwire.Compile

/-! The commands, over any store of files. -/
namespace Bitwire.Command

inductive CommandError
  /-- The user has already been told. -/
  | reported
  | options (error : OptionError)
  | file (error : FileError)
  | compilation (failure : Failure)
  | needsOneInput
  deriving DecidableEq, Repr

def CommandError.message : CommandError → Bytes
  | reported => utf8 "compilation failed"
  | options error => error.message
  | file error => error.message
  | compilation failure => failure.message
  | needsOneInput => utf8 "tokens requires a single .si input"

structure Outcome where
  stdout : Bytes
  stderr : Bytes
  error : Option CommandError
  deriving DecidableEq, Repr

namespace Outcome

def success (stdout : Bytes) : Outcome := ⟨stdout, [], none⟩

def failure (error : CommandError) : Outcome := ⟨[], [], some error⟩

end Outcome

def textLines (texts : List String) : Bytes := texts.flatMap fun text => utf8 text ++ [newline]

def buildUsage : Bytes := textLines [
  "Usage: silica build -i <file.si> -o <file.v> [-collapse-let]",
  "  -collapse-let",
  "    \tlower let declarations with an initializer to plain assigns",
  "  -i string",
  "    \tinput Silica file",
  "  -input string",
  "    \tinput Silica file",
  "  -o string",
  "    \toutput Verilog file",
  "  -output string",
  "    \toutput Verilog file"]

def usage : Bytes := textLines [
  "silica - Silica to Verilog compiler",
  "",
  "Usage:",
  "  silica build -i <file.si> -o <file.v> [-collapse-let]",
  "  silica tokens <file.si>",
  "  silica version"]

def version : Bytes := utf8 "0.1.0"

section

variable {m : Type → Type} [Monad m] [FileStore m]

/-- Compiles one file to another. The output is opened only once there is something to write. -/
def buildWith (s : Settings) : m Outcome := do
  match ← FileStore.readFile s.input with
  | .error e => return .failure (.file e)
  | .ok src =>
    match compile src s.collapse with
    | .error f =>
      match f.source? with
      | some _ => return ⟨[], diagnose s.input src f ++ utf8 "\n", some .reported⟩
      | none => return .failure (.compilation (.wrapped s.input f))
    | .ok text =>
      match ← FileStore.writeFile s.output text with
      | .error e => return .failure (.file e)
      | .ok () => return .success []

def build (args : List Bytes) : m Outcome :=
  match readOptions args with
  | (_, some .help) => return .success buildUsage
  | (_, some e) => return .failure (.options e)
  | (s, none) => buildWith s

/-- Lists the items of one file. -/
def tokens (args : List Bytes) : m Outcome := do
  match args with
  | [path] =>
    match ← FileStore.readFile path with
    | .error e => return .failure (.file e)
    | .ok src => return .success (listing src)
  | _ => return .failure .needsOneInput

/-- What a run of the program leaves behind besides its files. -/
structure Ending where
  exitCode : UInt8
  stdout : Bytes
  stderr : Bytes
  deriving DecidableEq, Repr

/-- An error that the user has not been told yet goes to the error output. -/
def Outcome.ending (o : Outcome) : Ending :=
  match o.error with
  | none => ⟨0, o.stdout, o.stderr⟩
  | some .reported => ⟨1, o.stdout, o.stderr⟩
  | some e => ⟨1, o.stdout, o.stderr ++ utf8 "error: " ++ e.message ++ utf8 "\n"⟩

def run (args : List Bytes) : m Ending :=
  match args with
  | [] => return ⟨2, usage, []⟩
  | command :: rest =>
    if command = utf8 "build" then return (← build rest).ending
    else if command = utf8 "tokens" then return (← tokens rest).ending
    else if command = utf8 "version" then return ⟨0, version ++ utf8 "\n", []⟩
    else if command = utf8 "help" ∨ command = utf8 "-h" ∨ command = utf8 "--help" then
      return ⟨0, usage, []⟩
    else return ⟨2, usage, utf8 "unknown command: " ++ command ++ utf8 "\n"⟩

end

end Bitwire.Command
