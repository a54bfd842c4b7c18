import Bitwire.Text.Quoted

/-! The options of a build. An option is written with one or two dashes; its value follows an
equals sign or is the next argument. The last setting of each kind counts. -/
namespace Bitwire.Command

open Text

structure Settings where
  input : Bytes
  output : Bytes
  collapse : Bool
  deriving DecidableEq, Repr

def Settings.initial : Settings := ⟨[], [], false⟩

inductive OptionError
  | badForm (argument : Bytes)
  | help
  | undefined (name : Bytes)
  | badBoolean (value : Bytes)
  | noValue (name : Bytes)
  | unexpectedArgument (argument : Bytes)
  | noInput
  | noOutput
  deriving DecidableEq, Repr

def OptionError.message : OptionError → Bytes
  | badForm argument => utf8 "bad flag syntax: " ++ argument
  | help => utf8 "flag: help requested"
  | undefined name => utf8 "flag provided but not defined: -" ++ name
  | badBoolean value =>
    utf8 "invalid boolean value " ++ quote value ++ utf8 " for -collapse-let: parse error"
  | noValue name => utf8 "flag needs an argument: -" ++ name
  | unexpectedArgument argument => utf8 "unexpected argument " ++ quote argument
  | noInput => utf8 "missing input file (-i)"
  | noOutput => utf8 "missing output file (-o)"

/-- The form of an argument, before its name is looked up. -/
inductive Argument
  | operand
  | endOfOptions
  | malformed
  | option (name : Bytes) (value : Option Bytes)
  deriving DecidableEq, Repr

def dash : UInt8 := 0x2D
def equalsSign : UInt8 := 0x3D

/-- Splits what follows the dashes at its first equals sign. -/
def Argument.ofBody (body : Bytes) : Argument :=
  match body with
  | [] => malformed
  | b :: _ =>
    if b = dash ∨ b = equalsSign then malformed
    else
      let name := body.takeWhile (· != equalsSign)
      match body.dropWhile (· != equalsSign) with
      | [] => option name none
      | _ :: value => option name (some value)

def Argument.ofBytes : Bytes → Argument
  | a :: b :: rest =>
    if a ≠ dash then operand
    else if b ≠ dash then ofBody (b :: rest)
    else if rest = [] then endOfOptions
    else ofBody rest
  | _ => operand

inductive Setting
  | input | output | collapse
  deriving DecidableEq, Repr

def Setting.ofName? (name : Bytes) : Option Setting :=
  if name = utf8 "i" ∨ name = utf8 "input" then some input
  else if name = utf8 "o" ∨ name = utf8 "output" then some output
  else if name = utf8 "collapse-let" then some collapse
  else none

def trueWords : List Bytes := ["1", "t", "T", "TRUE", "true", "True"].map utf8
def falseWords : List Bytes := ["0", "f", "F", "FALSE", "false", "False"].map utf8

def boolean? (word : Bytes) : Option Bool :=
  if word ∈ trueWords then some true
  else if word ∈ falseWords then some false
  else none

namespace Settings

/-- A build needs both of its files. -/
def check (s : Settings) : Option OptionError :=
  if s.input = [] then some .noInput
  else if s.output = [] then some .noOutput
  else none

/-- Reads the arguments on top of what is set. On an error the settings are those made so far. -/
def read (s : Settings) : List Bytes → Settings × Option OptionError
  | [] => (s, s.check)
  | argument :: rest =>
    match Argument.ofBytes argument with
    | .operand => (s, some (.unexpectedArgument argument))
    | .endOfOptions =>
      match rest with
      | [] => (s, s.check)
      | next :: _ => (s, some (.unexpectedArgument next))
    | .malformed => (s, some (.badForm argument))
    | .option name value =>
      match Setting.ofName? name, value, rest with
      | none, _, _ =>
        (s, some (if name = utf8 "h" ∨ name = utf8 "help" then .help else .undefined name))
      | some .collapse, none, rest => read { s with collapse := true } rest
      | some .collapse, some word, rest =>
        match boolean? word with
        | some collapse => read { s with collapse } rest
        | none => ({ s with collapse := false }, some (.badBoolean word))
      | some .input, some input, rest => read { s with input } rest
      | some .output, some output, rest => read { s with output } rest
      | some .input, none, input :: rest => read { s with input } rest
      | some .output, none, output :: rest => read { s with output } rest
      | some _, none, [] => (s, some (.noValue name))

end Settings

def readOptions (args : List Bytes) : Settings × Option OptionError := Settings.initial.read args

end Bitwire.Command
