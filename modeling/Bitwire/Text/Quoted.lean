import Bitwire.Text.Rune

/-! Quoted text: printable characters stand for themselves, the delimiter and the backslash are
escaped, and all else is written by a short escape or by its number. -/
namespace Bitwire.Text

/-- The last `width` hexadecimal digits, in lower case. -/
def hex : (width : Nat) → Nat → Bytes
  | 0, _ => []
  | width + 1, n => hex width (n / 16) ++ String.utf8EncodeChar (Nat.digitChar (n % 16))

def shortEscape? (c : Char) : Option Char :=
  match c.toNat with
  | 0x07 => some 'a'
  | 0x08 => some 'b'
  | 0x09 => some 't'
  | 0x0A => some 'n'
  | 0x0B => some 'v'
  | 0x0C => some 'f'
  | 0x0D => some 'r'
  | _ => none

def escape (delimiter : Char) : Rune → Bytes
  | .stray b => utf8 "\\x" ++ hex 2 b.toNat
  | .scalar c =>
    if c = delimiter ∨ c = '\\' then utf8 "\\" ++ String.utf8EncodeChar c
    else if isPrintable c then String.utf8EncodeChar c
    else match shortEscape? c with
      | some e => utf8 "\\" ++ String.utf8EncodeChar e
      | none =>
        if c.toNat < 0x20 ∨ c.toNat = 0x7F then utf8 "\\x" ++ hex 2 c.toNat
        else if c.toNat < 0x10000 then utf8 "\\u" ++ hex 4 c.toNat
        else utf8 "\\U" ++ hex 8 c.toNat

def quote (s : Bytes) : Bytes :=
  utf8 "\"" ++ (runes s).flatMap (escape '"') ++ utf8 "\""

/-- The character with this number; numbers of no character give the replacement character. -/
def charOfCode (code : Int) : Char :=
  if code.toNat.isValidChar ∧ 0 ≤ code then Char.ofNat code.toNat else '�'

def quoteChar (code : Int) : Bytes :=
  utf8 "'" ++ escape '\'' (.scalar (charOfCode code)) ++ utf8 "'"

end Bitwire.Text
