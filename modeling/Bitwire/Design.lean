import Bitwire.Expr

/-! A design: one module of the source language, with its ports and statements in order. -/
namespace Bitwire

inductive Direction
  | input | output
  deriving DecidableEq, Repr

/-- One code stands for outputs, and any other for inputs. -/
def Direction.ofCode (code : Int) : Direction := if code = 1 then output else input

inductive BitType
  | bit
  /-- The bits from `high` down to `low`, both included. -/
  | vector (high low : UInt64)
  /-- The hole of a tree that was not completed. -/
  | missing
  deriving DecidableEq, Repr

structure Port where
  direction : Direction
  name : Bytes
  type : BitType
  deriving DecidableEq, Repr

inductive Stmt
  | assign (name : Bytes) (value : Expr)
  | declare (name : Bytes) (type : BitType)
  | declareAssign (name : Bytes) (type : BitType) (value : Expr)
  /-- The hole of a tree that was not completed. -/
  | missing
  deriving DecidableEq, Repr

structure Design where
  name : Bytes
  ports : List Port
  stmts : List Stmt
  deriving DecidableEq, Repr

namespace Design

def addPort (d : Design) (p : Port) : Design := { d with ports := d.ports ++ [p] }

def addStmt (d : Design) (s : Stmt) : Design := { d with stmts := d.stmts ++ [s] }

end Design

/-- A bound that a numeral stands for: at most 64 bits. -/
def bound? (text : Bytes) : Option UInt64 :=
  match numeral? text with
  | some n => if n < UInt64.size then some (UInt64.ofNat n) else none
  | none => none

/-- The type between brackets, or the position of the bound that is to blame: the high one if it
is unusable, and the low one if it is unusable or above the high one. -/
def BitType.ofBounds (high low : Token) : Except Int BitType :=
  match bound? high.text with
  | none => .error high.start
  | some h =>
    match bound? low.text with
    | none => .error low.start
    | some l => if l ≤ h then .ok (.vector h l) else .error low.start

end Bitwire
