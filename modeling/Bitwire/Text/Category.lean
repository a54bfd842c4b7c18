import Bitwire.Text.Ranges

/-! The classes of characters that reading and printing tell apart. -/
namespace Bitwire.Text

inductive Category
  | letter | decimal | number | sign | other
  deriving DecidableEq, Repr

/-- Whether a number lies in one of the ascending ranges. -/
def inRanges (n : Nat) : List (Nat × Nat) → Bool
  | [] => false
  | (low, high) :: rest => low ≤ n && (n ≤ high || inRanges n rest)

def category (c : Char) : Category :=
  if inRanges c.toNat letters then .letter
  else if inRanges c.toNat decimals then .decimal
  else if inRanges c.toNat numbers then .number
  else if inRanges c.toNat signs then .sign
  else .other

def isLetter (c : Char) : Bool := category c == .letter
def isDecimal (c : Char) : Bool := category c == .decimal
def isNumber (c : Char) : Bool := category c == .decimal || category c == .number

/-- Characters that are shown as they are; of the separators only the ASCII space. -/
def isPrintable (c : Char) : Bool := c == ' ' || category c != .other

/-- The characters that separate words: white space. -/
def blanks : List (Nat × Nat) := [
  (0x09, 0x0D), (0x20, 0x20), (0x85, 0x85), (0xA0, 0xA0), (0x1680, 0x1680), (0x2000, 0x200A),
  (0x2028, 0x2029), (0x202F, 0x202F), (0x205F, 0x205F), (0x3000, 0x3000)]

def isBlank (c : Char) : Bool := inRanges c.toNat blanks

end Bitwire.Text
