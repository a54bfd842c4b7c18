import Bitwire.Text.Quoted

/-! The kinds of tokens and the tokens themselves. A token carries text only where its kind does
not determine it, and the half-open range of bytes it was read from. -/
namespace Bitwire

inductive Kind
  | identifier | literal
  | comma | semicolon | colon
  | openParen | closeParen | openBrace | closeBrace | openBracket | closeBracket
  | equals | tilde | ampersand | bar | caret | shiftLeft | shiftRight
  | modWord | topWord | inWord | outWord | bitWord | letWord
  /-- A number that is no kind of the language. -/
  | unknown (code : Int)
  deriving DecidableEq, Repr

namespace Kind

/-- The kinds of the language, in the order of their codes. -/
def all : List Kind := [
  identifier, literal, comma, semicolon, colon, openParen, closeParen, openBrace, closeBrace,
  openBracket, closeBracket, equals, tilde, ampersand, bar, caret, shiftLeft, shiftRight,
  modWord, topWord, inWord, outWord, bitWord, letWord]

def ofCode (code : Int) : Kind :=
  if code < 0 then unknown code else all.getD code.toNat (unknown code)

def code : Kind → Int
  | unknown code => code
  | k => all.idxOf k

/-- How a symbol or keyword is written; empty for the kinds that carry a text. -/
def spelling : Kind → Bytes
  | identifier | literal | unknown _ => []
  | comma => utf8 ","
  | semicolon => utf8 ";"
  | colon => utf8 ":"
  | openParen => utf8 "("
  | closeParen => utf8 ")"
  | openBrace => utf8 "\x7b"
  | closeBrace => utf8 "\x7d"
  | openBracket => utf8 "["
  | closeBracket => utf8 "]"
  | equals => utf8 "="
  | tilde => utf8 "~"
  | ampersand => utf8 "&"
  | bar => utf8 "|"
  | caret => utf8 "^"
  | shiftLeft => utf8 "<<"
  | shiftRight => utf8 ">>"
  | modWord => utf8 "mod"
  | topWord => utf8 "top"
  | inWord => utf8 "in"
  | outWord => utf8 "out"
  | bitWord => utf8 "bit"
  | letWord => utf8 "let"

/-- The kind as messages name it. -/
def name : Kind → Bytes
  | identifier => utf8 "identifier"
  | literal => utf8 "literal"
  | unknown code => utf8 "Kind(" ++ signedDecimal code ++ utf8 ")"
  | k => utf8 "\"" ++ k.spelling ++ utf8 "\""

def keywords : List Kind := [modWord, topWord, inWord, outWord, bitWord, letWord]

def ofWord? (word : Bytes) : Option Kind := keywords.find? (·.spelling == word)

/-- The symbols of one character. -/
def ofSymbol? : Char → Option Kind
  | ',' => some comma
  | ';' => some semicolon
  | ':' => some colon
  | '(' => some openParen
  | ')' => some closeParen
  | '\x7b' => some openBrace
  | '\x7d' => some closeBrace
  | '[' => some openBracket
  | ']' => some closeBracket
  | '=' => some equals
  | '~' => some tilde
  | '&' => some ampersand
  | '|' => some bar
  | '^' => some caret
  | _ => none

/-- The symbols written as one character twice. -/
def ofDouble? : Char → Option Kind
  | '<' => some shiftLeft
  | '>' => some shiftRight
  | _ => none

/-- The class under which a listing shows the kind. -/
def className (k : Kind) : Bytes :=
  if k = identifier ∨ k = literal then k.name
  else if k ∈ keywords then utf8 "keyword"
  else utf8 "symbol"

/-- Whether tokens of this kind carry their text. -/
def hasText (k : Kind) : Bool := k = identifier ∨ k = literal

end Kind

structure Token where
  start : Int
  stop : Int
  kind : Kind
  text : Bytes
  deriving DecidableEq, Repr

/-- The token as messages show it. -/
def Token.describe (t : Token) : Bytes :=
  if t.kind.hasText then Text.quote t.text else t.kind.name

end Bitwire
