import Bitwire.Failure

/-! Source text cut into lexemes: blanks, comments, tokens, and characters that start none of
these. Every rune belongs to exactly one lexeme. -/
namespace Bitwire

open Text

inductive Shape
  | blank
  | comment
  | token (kind : Kind)
  | bad
  deriving DecidableEq, Repr

structure Lexeme where
  shape : Shape
  runes : List Rune
  deriving DecidableEq, Repr

def isWordStart (r : Rune) : Bool := isLetter r.char || r.char == '_'
def isWordPart (r : Rune) : Bool := isWordStart r || isNumber r.char
def isDigit (r : Rune) : Bool := isDecimal r.char

namespace Lexeme

def bytes (l : Lexeme) : Bytes := encode l.runes

def width (l : Lexeme) : Nat := l.bytes.length

/-- The lexeme at the head of `r :: rest`. Words and literals are as long as they can be, and a
comment ends before its newline. -/
def first (r : Rune) (rest : List Rune) : Lexeme :=
  if r.isBlank then ⟨.blank, [r]⟩
  else if r = .scalar '/' ∧ rest.head? = some r then
    ⟨.comment, r :: rest.takeWhile (· != .scalar '\n')⟩
  else if isWordStart r then
    let word := r :: rest.takeWhile isWordPart
    ⟨.token ((Kind.ofWord? (encode word)).getD .identifier), word⟩
  else if isDigit r then ⟨.token .literal, r :: rest.takeWhile isDigit⟩
  else match Kind.ofSymbol? r.char, Kind.ofDouble? r.char with
    | some kind, _ => ⟨.token kind, [r]⟩
    | none, some kind => if rest.head? = some r then ⟨.token kind, [r, r]⟩ else ⟨.bad, [r]⟩
    | none, none => ⟨.bad, [r]⟩

theorem runes_first (r : Rune) (rest : List Rune) :
    (first r rest).runes = r :: rest.take ((first r rest).runes.length - 1) := by
  have take (p : Rune → Bool) : rest.takeWhile p = rest.take (rest.takeWhile p).length :=
    List.prefix_iff_eq_take.mp (List.takeWhile_prefix p)
  have one (h : rest.head? = some r) : rest.take 1 = [r] := by
    cases rest <;> simp_all
  unfold first
  repeat' split
  all_goals simp_all [← take]

/-- What a stream shows of a lexeme that starts at a byte offset. -/
def item? (start : Nat) (l : Lexeme) : Option Item :=
  match l.shape with
  | .blank | .comment => none
  | .token kind =>
    let text := if kind.hasText then l.bytes else []
    some (.token ⟨start, start + l.width, kind, text⟩)
  | .bad => l.runes.head?.map fun r => .failure (.badCharacter ⟨start, r.char.toNat⟩)

end Lexeme

def lexemes (src : Bytes) : List Lexeme :=
  pieces Lexeme.first (fun l => l.runes.length - 1) (runes src)

theorem flatMap_runes_lexemes (src : Bytes) : (lexemes src).flatMap Lexeme.runes = runes src :=
  flatMap_pieces _ _ _ Lexeme.runes_first _

/-- Every byte of a source lies in exactly one lexeme. -/
theorem flatMap_bytes_lexemes (src : Bytes) : (lexemes src).flatMap Lexeme.bytes = src := by
  calc (lexemes src).flatMap Lexeme.bytes
      = encode ((lexemes src).flatMap Lexeme.runes) := by
        simp only [encode, List.flatMap_assoc]
        rfl
    _ = src := by rw [flatMap_runes_lexemes, encode_runes]

/-- The items of consecutive lexemes of which the first starts at `start`. -/
def itemsFrom : (start : Nat) → List Lexeme → List Item
  | _, [] => []
  | start, l :: rest =>
    match l.item? start with
    | some item => item :: itemsFrom (start + l.width) rest
    | none => itemsFrom (start + l.width) rest

/-- The tokens and bad characters of a source, in order. -/
def items (src : Bytes) : List Item := itemsFrom 0 (lexemes src)

def tokens (src : Bytes) : List Token := (items src).filterMap Item.token?

def lexicalFailures (src : Bytes) : List Failure := (items src).filterMap Item.failure?

end Bitwire
