import Bitwire.Design.Progress
import Bitwire.Text.Location
import Bitwire.Verilog.Lowering

/-! Compiling a source to Verilog, and showing to a user why it could not be compiled. -/
namespace Bitwire

open Text

/-- Compiles a source. With `collapse`, declarations with a value become assignments. -/
def compile (src : Bytes) (collapse : Bool) : Except Failure Bytes := do
  let design ← Design.parse src
  let verilog ← (design.lower collapse).mapError Failure.tree
  verilog.render.mapError Failure.tree

/-- What stands before the caret: tabs stay tabs, so that it lines up below the text. -/
def caretPad (line : Bytes) (column : Nat) : Bytes :=
  let before := (runes line).take (column - 1)
  before.map (fun r => if r.char = '\t' then tab else space) ++
    List.replicate (column - 1 - before.length) space

/-- The report of a failure. An error that points into the source is located there and shown with
its line. -/
def diagnose (file src : Bytes) (f : Failure) : Bytes :=
  match f.source? with
  | none => file ++ utf8 ": error: " ++ f.message
  | some error =>
    let place := locate src error.position
    let line := dropTrailing carriageReturn ((lines src).getD (place.line - 1) [])
    file ++ utf8 ":" ++ decimal place.line ++ utf8 ":" ++ decimal place.column ++
      utf8 ": error: " ++ f.message ++ utf8 "\n    " ++ line ++
      utf8 "\n    " ++ caretPad line place.column ++ utf8 "^"

end Bitwire
