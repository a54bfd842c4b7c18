import Bitwire.Bytes

/-! What can be wrong with a tree that was put together by hand. -/
namespace Bitwire

inductive Fault
  | missingType
  | missingStatement
  | missingExpression
  | unknownBinary (code : Int)
  | unknownUnary (code : Int)
  /-- An operator whose code is past the symbols of its table. -/
  | noSymbol (code : Int) (symbols : Nat)
  deriving DecidableEq, Repr

def Fault.message : Fault → Bytes
  | missingType => utf8 "verilog: unknown type <nil>"
  | missingStatement => utf8 "verilog: unknown statement <nil>"
  | missingExpression => utf8 "verilog: unknown expression <nil>"
  | unknownBinary code => utf8 "verilog: unknown binary operator " ++ signedDecimal code
  | unknownUnary code => utf8 "verilog: unknown unary operator " ++ signedDecimal code
  | noSymbol code symbols =>
    utf8 "runtime error: index out of range [" ++ signedDecimal code ++ utf8 "]" ++
      if code < 0 then [] else utf8 " with length " ++ decimal symbols

end Bitwire
