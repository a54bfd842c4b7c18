import Bitwire.Verilog.Module

/-! Lowering a design to a Verilog module. Types are forgotten, and on request a declaration with
a value becomes a plain assignment. Holes and unknown operators are refused; the one that is
reported is the first met when ports come before statements, a type before a value, a left
operand before its operator, and a unary operator before its operand. -/
namespace Bitwire

open Verilog (Module)

def BinaryOp.lower : BinaryOp → Except Fault BinaryOp
  | unknown code => .error (.unknownBinary code)
  | op => .ok op

def UnaryOp.lower : UnaryOp → Except Fault UnaryOp
  | unknown code => .error (.unknownUnary code)
  | op => .ok op

def Expr.lower : Expr → Except Fault Expr
  | binary left op right => do
    let left ← left.lower
    let op ← op.lower
    let right ← right.lower
    return binary left op right
  | unary op operand => do
    let op ← op.lower
    let operand ← operand.lower
    return unary op operand
  | paren inner => do return paren (← inner.lower)
  | name text => .ok (name text)
  | literal text => .ok (literal text)
  | missing => .error .missingExpression

def BitType.lower : BitType → Except Fault Unit
  | bit | vector _ _ => .ok ()
  | missing => .error .missingType

def Port.lower (p : Port) : Except Fault Verilog.Port := do
  p.type.lower
  return ⟨p.direction, p.name⟩

def Stmt.lower (collapse : Bool) : Stmt → Except Fault Verilog.Stmt
  | assign name value => do return .assign name (← value.lower)
  | declare name type => do
    type.lower
    return .wire name
  | declareAssign name type value =>
    if collapse then do return .assign name (← value.lower)
    else do
      type.lower
      return .wireAssign name (← value.lower)
  | missing => .error .missingStatement

def Design.lower (collapse : Bool) (d : Design) : Except Fault Module := do
  let ports ← d.ports.mapM Port.lower
  let stmts ← d.stmts.mapM (Stmt.lower collapse)
  return ⟨d.name, ports, stmts⟩

end Bitwire
