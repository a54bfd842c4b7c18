import Bitwire.Fault
import Bitwire.Token

/-! Everything that can stop a compilation, and the words for it. A failure may come wrapped in
notes; the error inside still counts for deciding what kind of failure it is. -/
namespace Bitwire

/-- A character that starts no token. -/
structure BadCharacter where
  position : Int
  code : Int
  deriving DecidableEq, Repr

/-- Errors that point into the source. -/
inductive SourceError
  | invalidToken (position : Int)
  /-- No token at the end of the input; the position is then the end of what was read. -/
  | unexpected (token : Option Token) (position : Int) (expected : List Bytes)
  | extraToken (token : Token)
  | invalidCharacter (character : BadCharacter)
  deriving DecidableEq, Repr

namespace SourceError

def position : SourceError → Int
  | invalidToken position => position
  | unexpected (some token) _ _ => token.start
  | unexpected none position _ => position
  | extraToken token => token.start
  | invalidCharacter character => character.position

/-- The tail of a message that says what could have stood in the place. -/
def expectation : List Bytes → Bytes
  | [] => []
  | [kind] => utf8 ", expected " ++ kind
  | kinds => utf8 ", expected one of " ++ (utf8 ", ").intercalate kinds

def message : SourceError → Bytes
  | invalidToken position => utf8 "invalid token at offset " ++ signedDecimal position
  | unexpected none _ expected => utf8 "unexpected end of input" ++ expectation expected
  | unexpected (some token) _ expected =>
    utf8 "unexpected " ++ token.describe ++ expectation expected
  | extraToken token => utf8 "extra token " ++ token.describe ++ utf8 " after end of module"
  | invalidCharacter character => utf8 "invalid character " ++ Text.quoteChar character.code

end SourceError

inductive Failure
  | badCharacter (character : BadCharacter)
  | source (error : SourceError)
  | tree (fault : Fault)
  | endOfInput
  | other (text : Bytes)
  | wrapped (note : Bytes) (inner : Failure)
  deriving DecidableEq, Repr

namespace Failure

def message : Failure → Bytes
  | badCharacter character =>
    utf8 "invalid character " ++ Text.quoteChar character.code ++ utf8 " at offset " ++
      signedDecimal character.position
  | source error => error.message
  | tree fault => fault.message
  | endOfInput => utf8 "EOF"
  | other text => text
  | wrapped note inner => note ++ utf8 ": " ++ inner.message

def badCharacter? : Failure → Option BadCharacter
  | badCharacter character => some character
  | wrapped _ inner => inner.badCharacter?
  | _ => none

def source? : Failure → Option SourceError
  | source error => some error
  | wrapped _ inner => inner.source?
  | _ => none

end Failure

/-- What a stream of tokens yields. A stream is a list of items; it has ended at an item that is
the end of input itself, and after its last item. -/
inductive Item
  | token (token : Token)
  | failure (failure : Failure)
  deriving DecidableEq, Repr

namespace Item

def token? : Item → Option Token
  | token t => some t
  | failure _ => none

def failure? : Item → Option Failure
  | token _ => none
  | failure f => some f

theorem token_injective : Function.Injective token := fun _ _ => token.inj

end Item

/-- What a call for the next item gives; calls count from zero. After its last item a stream has
ended for good. -/
def pull (stream : List Item) (call : Nat) : Item := stream.getD call (.failure .endOfInput)

end Bitwire
