import Bitwire.Lexeme
import Bitwire.Text.Location

/-! A listing of the items of a source, one line for each. -/
namespace Bitwire.Command

open Text

def tokenLine (src : Bytes) (t : Token) : Bytes :=
  signedDecimal t.start ++ utf8 ".." ++ signedDecimal t.stop ++ utf8 "\t" ++ t.kind.className ++
    utf8 "\t" ++ slice src t.start.toNat t.stop.toNat ++ utf8 "\n"

def badCharacterLine (src : Bytes) (c : BadCharacter) : Bytes :=
  let place := locate src c.position
  decimal place.line ++ utf8 ":" ++ decimal place.column ++ utf8 "\terror\t" ++
    quoteChar c.code ++ utf8 "\n"

def itemLine (src : Bytes) : Item → Bytes
  | .token t => tokenLine src t
  | .failure f => (f.badCharacter?.map (badCharacterLine src)).getD []

def listing (src : Bytes) : Bytes := (items src).flatMap (itemLine src)

end Bitwire.Command
