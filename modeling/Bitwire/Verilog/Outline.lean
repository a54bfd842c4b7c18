import Bitwire.Text.Quoted

/-! The outline of a Verilog text: the name of its module and the lines of its ports and
statements. Blank lines and comment lines carry nothing, so annotated files have the outline of
the plain ones. -/
namespace Bitwire.Verilog

open Text

structure Outline where
  name : Bytes
  ports : List Bytes
  stmts : List Bytes
  deriving DecidableEq, Repr

inductive OutlineError
  | noHeader (line : Nat) (text : Bytes)
  | afterEnd (line : Nat) (text : Bytes)
  | noEnd
  | lineTooLong
  deriving DecidableEq, Repr

def OutlineError.message : OutlineError → Bytes
  | noHeader line text =>
    utf8 "line " ++ decimal line ++ utf8 ": expected module header, got " ++ quote text
  | afterEnd line text =>
    utf8 "line " ++ decimal line ++ utf8 ": text after endmodule: " ++ quote text
  | noEnd => utf8 "missing endmodule"
  | lineTooLong => utf8 "bufio.Scanner: token too long"

/-- The part of a module in which the next line lies. -/
inductive Section
  | header | ports | body | finished
  deriving DecidableEq, Repr

namespace Outline

def empty : Outline := ⟨[], [], []⟩

/-- A line, its newline not counted, has to stay below this many bytes. -/
def lineLimit : Nat := 65536

/-- The lines of a text; an empty one at its end does not count. -/
def physicalLines (text : Bytes) : List Bytes :=
  let all := lines text
  if all.getLast? = some [] then all.dropLast else all

def isIgnored (line : Bytes) : Bool := line.isEmpty || (utf8 "//").isPrefixOf line

/-- The name in a header line. -/
def headerName? (line : Bytes) : Option Bytes :=
  if (utf8 "module ").isPrefixOf line ∧ (utf8 "(").isSuffixOf line then
    some (trim (dropSuffix (utf8 "(") (line.drop (utf8 "module ").length)))
  else none

/-- Takes in one line that is trimmed and not ignored. -/
def readLine (number : Nat) (line : Bytes) (o : Outline) :
    Section → Except OutlineError (Outline × Section)
  | .header =>
    match headerName? line with
    | some name => .ok ({ o with name }, .ports)
    | none => .error (.noHeader number line)
  | .ports =>
    if line = utf8 ");" then .ok (o, .body)
    else .ok ({ o with ports := o.ports ++ [trim (dropSuffix (utf8 ",") line)] }, .ports)
  | .body =>
    if line = utf8 "endmodule" then .ok (o, .finished)
    else .ok ({ o with stmts := o.stmts ++ [line] }, .body)
  | .finished => .error (.afterEnd number line)

/-- Reads lines of which the first has the given number. On an error the outline holds what the
lines before had contributed. -/
def readLines (number : Nat) (o : Outline) (s : Section) :
    List Bytes → Outline × Option OutlineError
  | [] => (o, if s = .finished then none else some .noEnd)
  | raw :: rest =>
    if lineLimit ≤ raw.length then (o, some .lineTooLong)
    else
      let line := trim (dropSuffix [carriageReturn] raw)
      if isIgnored line then readLines (number + 1) o s rest
      else
        match readLine number line o s with
        | .ok (o, s) => readLines (number + 1) o s rest
        | .error e => (o, some e)

def read (text : Bytes) : Outline × Option OutlineError :=
  readLines 1 empty .header (physicalLines text)

/-- The line that reports two entries as different. -/
def mismatchLine (label got want : Bytes) : Bytes :=
  utf8 "  " ++ label ++ utf8 ": got " ++ quote got ++ utf8 " want " ++ quote want ++ utf8 "\n"

/-- The differences between two lists of entries; an entry that one of them lacks is empty. -/
def mismatches (what : Bytes) (got want : List Bytes) : Bytes :=
  (List.range (max got.length want.length)).flatMap fun i =>
    let g := got.getD i []
    let w := want.getD i []
    if g = w then [] else mismatchLine (what ++ utf8 "[" ++ decimal i ++ utf8 "]") g w

/-- A report of how one outline differs from another, empty if it does not. -/
def compare (got want : Outline) : Bytes :=
  let body :=
    (if got.name = want.name then [] else mismatchLine (utf8 "module name") got.name want.name) ++
    mismatches (utf8 "port") got.ports want.ports ++
    mismatches (utf8 "stmt") got.stmts want.stmts
  if body = [] then [] else utf8 "verilog mismatch:\n" ++ body

end Outline

end Bitwire.Verilog
