import Bitwire.Design
import Bitwire.Lexeme

/-! Reading a design one token at a time. `Progress` is how far the reading has come; each token
either takes it further or stops it, and each stage knows which kinds it waits for. Expressions
are read by precedence: a left operand waits until an operator that binds no tighter, or the end
of the expression, completes its right operand. -/
namespace Bitwire

/-- Left operands with their operators, the innermost first. -/
abbrev Pending := List (Expr × BinaryOp)

namespace Pending

/-- Completes the operators that bind at least as tightly as the tier of the operator that
follows. -/
def absorb (tier : Nat) (value : Expr) : Pending → Expr × Pending
  | [] => (value, [])
  | (left, op) :: rest =>
    if tier ≤ op.tier then absorb tier (.binary left op value) rest
    else (value, (left, op) :: rest)

/-- Completes all operators. -/
def join (value : Expr) (pending : Pending) : Expr :=
  pending.foldl (fun right (left, op) => .binary left op right) value

end Pending

/-- What stands before an operand between two parentheses: the waiting left operands, and the
unary operators directly in front of it, the innermost first. -/
structure Level where
  pending : Pending
  unaries : List UnaryOp
  deriving DecidableEq, Repr

namespace Level

def empty : Level := ⟨[], []⟩

def apply (l : Level) (operand : Expr) : Expr :=
  l.unaries.foldl (fun inner op => .unary op inner) operand

end Level

/-- What a name with a type declares. -/
inductive Role
  | port (direction : Direction)
  | wire
  deriving DecidableEq, Repr

/-- A named port or wire whose type is being read. -/
structure Binding where
  design : Design
  role : Role
  name : Bytes
  deriving DecidableEq, Repr

/-- Where the value of an expression goes. -/
inductive Target
  | assign (name : Bytes)
  | declare (name : Bytes) (type : BitType)
  deriving DecidableEq, Repr

def Target.stmt (value : Expr) : Target → Stmt
  | assign name => .assign name value
  | declare name type => .declareAssign name type value

/-- A statement whose expression is being read, with the levels around the open parentheses, the
innermost first. -/
structure Context where
  design : Design
  target : Target
  outer : List Level
  deriving DecidableEq, Repr

inductive Progress
  | start
  | afterTop
  | afterMod
  | afterName (design : Design)
  | portStart (design : Design)
  | afterPorts (design : Design)
  | stmtStart (design : Design)
  | bindingName (design : Design) (role : Role)
  | bindingColon (binding : Binding)
  | bindingType (binding : Binding)
  | afterBit (binding : Binding)
  | highBound (binding : Binding)
  | boundColon (binding : Binding) (high : Token)
  | lowBound (binding : Binding) (high : Token)
  | boundsEnd (binding : Binding) (high low : Token)
  | afterType (binding : Binding) (type : BitType)
  | afterTarget (design : Design) (name : Bytes)
  | operand (context : Context) (level : Level)
  | operator (context : Context) (pending : Pending) (value : Expr)
  | done (design : Design)
  deriving DecidableEq, Repr

/-- What a token does to the reading. -/
inductive Move
  | next (progress : Progress)
  | unexpected
  | invalid (position : Int)
  | extra
  deriving DecidableEq, Repr

/-- The kinds that may follow the type of a binding. -/
def Role.closers : Role → List Kind
  | port _ => [.comma, .closeParen]
  | wire => [.equals, .semicolon]

/-- The token after the type of a binding. -/
def Binding.close (b : Binding) (type : BitType) (kind : Kind) : Move :=
  match b.role with
  | .port direction =>
    let design := b.design.addPort ⟨direction, b.name, type⟩
    match kind with
    | .comma => .next (.portStart design)
    | .closeParen => .next (.afterPorts design)
    | _ => .unexpected
  | .wire =>
    match kind with
    | .semicolon => .next (.stmtStart (b.design.addStmt (.declare b.name type)))
    | .equals => .next (.operand ⟨b.design, .declare b.name type, []⟩ .empty)
    | _ => .unexpected

namespace Context

/-- The kind that ends the expression at the innermost level. -/
def closer (c : Context) : Kind :=
  if c.outer = [] then .semicolon else .closeParen

/-- A token where an operand has to start. -/
def readOperand (c : Context) (level : Level) (t : Token) : Move :=
  match t.kind with
  | .identifier => .next (.operator c level.pending (level.apply (.name t.text)))
  | .literal => .next (.operator c level.pending (level.apply (.literal t.text)))
  | .openParen => .next (.operand { c with outer := level :: c.outer } .empty)
  | kind =>
    match UnaryOp.ofKind? kind with
    | some op => .next (.operand c { level with unaries := op :: level.unaries })
    | none => .unexpected

/-- The end of the expression at the innermost level. -/
def closeLevel (c : Context) (value : Expr) : Progress :=
  match c.outer with
  | [] => .stmtStart (c.design.addStmt (c.target.stmt value))
  | level :: outer => .operator { c with outer } level.pending (level.apply (.paren value))

/-- A token after a complete operand. -/
def readOperator (c : Context) (pending : Pending) (value : Expr) (t : Token) : Move :=
  match BinaryOp.ofKind? t.kind with
  | some op =>
    let (left, rest) := pending.absorb op.tier value
    .next (.operand c ⟨(left, op) :: rest, []⟩)
  | none => if t.kind = c.closer then .next (c.closeLevel (pending.join value)) else .unexpected

end Context

namespace Progress

/-- The move at a stage that waits for one kind only. -/
def only (kind : Kind) (t : Token) (p : Progress) : Move :=
  if t.kind = kind then .next p else .unexpected

def step (t : Token) : Progress → Move
  | start => only .topWord t afterTop
  | afterTop => only .modWord t afterMod
  | afterMod => only .identifier t (afterName ⟨t.text, [], []⟩)
  | afterName d => only .openParen t (portStart d)
  | portStart d =>
    match t.kind with
    | .inWord => .next (bindingName d (.port .input))
    | .outWord => .next (bindingName d (.port .output))
    | .closeParen => .next (afterPorts d)
    | _ => .unexpected
  | afterPorts d => only .openBrace t (stmtStart d)
  | stmtStart d =>
    match t.kind with
    | .identifier => .next (afterTarget d t.text)
    | .letWord => .next (bindingName d .wire)
    | .closeBrace => .next (done d)
    | _ => .unexpected
  | bindingName d role => only .identifier t (bindingColon ⟨d, role, t.text⟩)
  | bindingColon b => only .colon t (bindingType b)
  | bindingType b => only .bitWord t (afterBit b)
  | afterBit b => if t.kind = .openBracket then .next (highBound b) else b.close .bit t.kind
  | highBound b => only .literal t (boundColon b t)
  | boundColon b high => only .colon t (lowBound b high)
  | lowBound b high => only .literal t (boundsEnd b high t)
  | boundsEnd b high low =>
    if t.kind = .closeBracket then
      match BitType.ofBounds high low with
      | .ok type => .next (afterType b type)
      | .error position => .invalid position
    else .unexpected
  | afterType b type => b.close type t.kind
  | afterTarget d name => only .equals t (operand ⟨d, .assign name, []⟩ .empty)
  | operand c level => c.readOperand level t
  | operator c pending value => c.readOperator pending value t
  | done _ => .extra

/-- The kinds a stage names when it is given something else. The bracket that may follow `bit` is
not among them. -/
def expected : Progress → List Kind
  | start => [.topWord]
  | afterTop => [.modWord]
  | afterMod => [.identifier]
  | afterName _ => [.openParen]
  | portStart _ => [.inWord, .outWord, .closeParen]
  | afterPorts _ => [.openBrace]
  | stmtStart _ => [.identifier, .letWord, .closeBrace]
  | bindingName _ _ => [.identifier]
  | bindingColon _ => [.colon]
  | bindingType _ => [.bitWord]
  | afterBit b => b.role.closers
  | highBound _ => [.literal]
  | boundColon _ _ => [.colon]
  | lowBound _ _ => [.literal]
  | boundsEnd _ _ _ => [.closeBracket]
  | afterType b _ => b.role.closers
  | afterTarget _ _ => [.equals]
  | operand _ _ => [.openParen, .tilde, .ampersand, .caret, .bar, .identifier, .literal]
  | operator c _ _ => [c.closer, .bar, .caret, .ampersand, .shiftLeft, .shiftRight]
  | done _ => []

/-- The error for a token, or for the end of input, that a stage did not wait for. -/
def unexpectedAt (p : Progress) (token : Option Token) (position : Int) : Failure :=
  .source (.unexpected token position (p.expected.map Kind.name))

/-- What the end of the input makes of the reading. -/
def finish (last : Int) : Progress → Except Failure Design
  | done d => .ok d
  | p => .error (p.unexpectedAt none last)

end Progress

/-- The outcome of a reading, and how many items the stream was asked for, the end included. -/
structure Reading where
  result : Except Failure Design
  pulled : Nat

/-- What a stream still holds after it was read. -/
def Reading.rest (r : Reading) (stream : List Item) : List Item := stream.drop r.pulled

/-- A bad character found in a stream becomes an error that points into the source; any other
failure is passed on as it is. -/
def Failure.surface (f : Failure) : Failure :=
  match f.badCharacter? with
  | some character => .source (.invalidCharacter character)
  | none => f

namespace Progress

/-- Reads on from a stage, where `last` is the end of the last token and `pulled` items have been
taken so far. -/
def run (p : Progress) (last : Int) (pulled : Nat) : List Item → Reading
  | [] => ⟨p.finish last, pulled + 1⟩
  | .token t :: rest =>
    match p.step t with
    | .next q => run q t.stop (pulled + 1) rest
    | .unexpected => ⟨.error (p.unexpectedAt (some t) t.start), pulled + 1⟩
    | .invalid position => ⟨.error (.source (.invalidToken position)), pulled + 1⟩
    | .extra => ⟨.error (.source (.extraToken t)), pulled + 1⟩
  | .failure .endOfInput :: _ => ⟨p.finish last, pulled + 1⟩
  | .failure f :: _ => ⟨.error f.surface, pulled + 1⟩

end Progress

namespace Design

def read (stream : List Item) : Reading := Progress.start.run 0 0 stream

def parse (src : Bytes) : Except Failure Design := (read (items src)).result

end Design

end Bitwire
