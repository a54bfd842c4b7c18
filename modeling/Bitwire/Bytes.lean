/-! Text is a list of bytes: source files, names and messages need not be valid UTF-8. -/
namespace Bitwire

abbrev Bytes := List UInt8

def utf8 (s : String) : Bytes := s.toList.flatMap String.utf8EncodeChar

def newline : UInt8 := 0x0A
def carriageReturn : UInt8 := 0x0D
def tab : UInt8 := 0x09
def space : UInt8 := 0x20

def decimal (n : Nat) : Bytes := (Nat.toDigits 10 n).flatMap String.utf8EncodeChar

def signedDecimal : Int → Bytes
  | .ofNat n => decimal n
  | .negSucc n => utf8 "-" ++ decimal (n + 1)

/-- The value of a non-empty run of ASCII digits; leading zeros are allowed, signs are not. -/
def numeral? (s : Bytes) : Option Nat :=
  if s ≠ [] ∧ s.all (fun b => 0x30 ≤ b && b ≤ 0x39) then
    some (s.foldl (fun n b => 10 * n + (b.toNat - 0x30)) 0)
  else none

/-- The bytes from offset `i` up to offset `j`. -/
def slice (s : Bytes) (i j : Nat) : Bytes := (s.take j).drop i

/-- The stretches between newline bytes: one more than there are newlines. -/
def lines (s : Bytes) : List Bytes := s.splitOn newline

/-- The bytes after the last newline. -/
def lastLine (s : Bytes) : Bytes := (s.reverse.takeWhile (· != newline)).reverse

def dropTrailing (b : UInt8) (s : Bytes) : Bytes := (s.reverse.dropWhile (· == b)).reverse

/-- Removes one copy of `tail` from the end, if it is there. -/
def dropSuffix (tail s : Bytes) : Bytes :=
  if tail.isSuffixOf s then s.take (s.length - tail.length) else s

end Bitwire
