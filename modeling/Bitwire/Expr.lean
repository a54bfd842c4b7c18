import Bitwire.Fault
import Bitwire.Token

/-! Expressions. The design language and Verilog share them, down to the way they are written. -/
namespace Bitwire

inductive BinaryOp
  | shiftLeft | shiftRight | bitAnd | bitXor | bitOr
  | unknown (code : Int)
  deriving DecidableEq, Repr

inductive UnaryOp
  | negate | reduceAnd | reduceXor | reduceOr
  | unknown (code : Int)
  deriving DecidableEq, Repr

namespace BinaryOp

def symbol : BinaryOp → Bytes
  | shiftLeft => utf8 "<<"
  | shiftRight => utf8 ">>"
  | bitAnd => utf8 "&"
  | bitXor => utf8 "^"
  | bitOr => utf8 "|"
  | unknown _ => utf8 "?"

/-- The operator in a text. An unknown one leaves a note there that its symbol was not found. -/
def written : BinaryOp → Bytes
  | unknown code =>
    utf8 "%!s(PANIC=String method: " ++ (Fault.noSymbol code 5).message ++ utf8 ")"
  | op => op.symbol

def ofCode : Int → BinaryOp
  | 0 => shiftLeft
  | 1 => shiftRight
  | 2 => bitAnd
  | 3 => bitXor
  | 4 => bitOr
  | code => unknown code

def code : BinaryOp → Int
  | shiftLeft => 0
  | shiftRight => 1
  | bitAnd => 2
  | bitXor => 3
  | bitOr => 4
  | unknown code => code

def ofKind? : Kind → Option BinaryOp
  | .shiftLeft => some shiftLeft
  | .shiftRight => some shiftRight
  | .ampersand => some bitAnd
  | .caret => some bitXor
  | .bar => some bitOr
  | _ => none

/-- How tightly the operator binds; operators of one tier group to the left. -/
def tier : BinaryOp → Nat
  | bitOr => 0
  | bitXor => 1
  | bitAnd => 2
  | shiftLeft | shiftRight | unknown _ => 3

end BinaryOp

namespace UnaryOp

def symbol : UnaryOp → Bytes
  | negate => utf8 "~"
  | reduceAnd => utf8 "&"
  | reduceXor => utf8 "^"
  | reduceOr => utf8 "|"
  | unknown _ => utf8 "?"

def ofCode : Int → UnaryOp
  | 0 => negate
  | 1 => reduceAnd
  | 2 => reduceXor
  | 3 => reduceOr
  | code => unknown code

def code : UnaryOp → Int
  | negate => 0
  | reduceAnd => 1
  | reduceXor => 2
  | reduceOr => 3
  | unknown code => code

def ofKind? : Kind → Option UnaryOp
  | .tilde => some negate
  | .ampersand => some reduceAnd
  | .caret => some reduceXor
  | .bar => some reduceOr
  | _ => none

end UnaryOp

inductive Expr
  | binary (left : Expr) (op : BinaryOp) (right : Expr)
  | unary (op : UnaryOp) (operand : Expr)
  | paren (inner : Expr)
  | name (text : Bytes)
  | literal (text : Bytes)
  /-- The hole of a tree that was not completed. -/
  | missing
  deriving DecidableEq, Repr

namespace Expr

def text : Expr → Bytes
  | binary left op right => left.text ++ utf8 " " ++ op.written ++ utf8 " " ++ right.text
  | unary op operand => op.symbol ++ operand.text
  | paren inner => utf8 "( " ++ inner.text ++ utf8 " )"
  | name text => text
  | literal text => text
  | missing => []

def hasHole : Expr → Bool
  | binary left _ right => left.hasHole || right.hasHole
  | unary _ operand => operand.hasHole
  | paren inner => inner.hasHole
  | name _ | literal _ => false
  | missing => true

end Expr

end Bitwire
