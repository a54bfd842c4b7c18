import Bitwire.Text.Rune

/-! Where a byte offset lies in a text, counted from one in lines and runes. -/
namespace Bitwire.Text

structure Location where
  line : Nat
  column : Nat
  deriving DecidableEq, Repr

/-- Offsets outside the text count as its nearer end. -/
def clamp (s : Bytes) (offset : Int) : Nat := min offset.toNat s.length

def locate (s : Bytes) (offset : Int) : Location :=
  let before := s.take (clamp s offset)
  { line := before.count newline + 1
    column := (runes (lastLine before)).length + 1 }

end Bitwire.Text
