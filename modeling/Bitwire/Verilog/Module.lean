import Bitwire.Design
import Bitwire.Failure

/-! Verilog modules and their text. The layout is fixed: one line for the header, each port and
each statement, all ending in a blank, and no comma after the last port. -/
namespace Bitwire

/-- There is no symbol for an unknown operator. -/
def UnaryOp.fault? : UnaryOp → Option Fault
  | unknown code => some (.noSymbol code 4)
  | _ => none

/-- The first thing met while writing an expression that cannot be written. A binary operator always
can, known or not. -/
def Expr.fault? : Expr → Option Fault
  | binary left _ right => left.fault?.or right.fault?
  | unary op operand => op.fault?.or operand.fault?
  | paren inner => inner.fault?
  | name _ | literal _ => none
  | missing => some .missingExpression

end Bitwire

namespace Bitwire.Verilog

/-- Every port is a wire. -/
structure Port where
  direction : Direction
  name : Bytes
  deriving DecidableEq, Repr

inductive Stmt
  | assign (name : Bytes) (value : Expr)
  | wire (name : Bytes)
  | wireAssign (name : Bytes) (value : Expr)
  /-- The hole of a tree that was not completed. -/
  | missing
  deriving DecidableEq, Repr

structure Module where
  name : Bytes
  ports : List Port
  stmts : List Stmt
  deriving DecidableEq, Repr

def directionWord : Direction → Bytes
  | .input => utf8 "input"
  | .output => utf8 "output"

/-- The word for the one type that wires have. -/
def typeWord : Bytes := utf8 "wire"

def Port.text (p : Port) : Bytes :=
  directionWord p.direction ++ utf8 " " ++ typeWord ++ utf8 " " ++ p.name

def Stmt.text : Stmt → Bytes
  | assign name value => utf8 "assign " ++ name ++ utf8 " = " ++ value.text ++ utf8 ";"
  | wire name => typeWord ++ utf8 " " ++ name ++ utf8 ";"
  | wireAssign name value =>
    typeWord ++ utf8 " " ++ name ++ utf8 " = " ++ value.text ++ utf8 ";"
  | missing => []

def Stmt.fault? : Stmt → Option Fault
  | assign _ value | wireAssign _ value => value.fault?
  | wire _ => none
  | missing => some .missingStatement

namespace Module

def portLines : List Port → Bytes
  | [] => []
  | [p] => utf8 "\t" ++ p.text ++ utf8 " \n"
  | p :: rest => utf8 "\t" ++ p.text ++ utf8 ", \n" ++ portLines rest

def stmtLine (s : Stmt) : Bytes := utf8 "\t" ++ s.text ++ utf8 " \n"

def text (m : Module) : Bytes :=
  utf8 "module " ++ m.name ++ utf8 " ( \n" ++ portLines m.ports ++ utf8 "); \n" ++
    m.stmts.flatMap stmtLine ++ utf8 "endmodule \n"

/-- The text of a module, or the first fault met while writing it. -/
def render (m : Module) : Except Fault Bytes :=
  match m.stmts.findSome? Stmt.fault? with
  | some fault => .error fault
  | none => .ok m.text

end Module

/-- Hands the text of a module to a sink. A module that cannot be rendered never reaches it. -/
def Module.write {α : Type} (m : Module) (sink : Bytes → Except Failure α) : Except Failure α := do
  sink (← m.render.mapError Failure.tree)

end Bitwire.Verilog
