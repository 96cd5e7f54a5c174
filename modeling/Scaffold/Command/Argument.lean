import Scaffold.Fault
import Scaffold.Layout
import Scaffold.Text.Integer
import Scaffold.Text.Terminal

/-!
# Arguments of the command line

The options and the positional arguments of the two levels of the command line, how they
are declared, their labels in messages, and the settings that their values give.
-/
namespace Scaffold

inductive Argument
  | lexFile
  | parseFile
  | json
  | file
  | source
  | code
  | target
  | output
  | indent
  | className
  | help
  | version
  deriving DecidableEq, Repr

/-- How an argument is declared. Without a name for its value it is a flag, and without a long
name it is positional. -/
structure Usage where
  long? : Option String := none
  short? : Option Char := none
  valueName? : Option String := none
  conflictsWith : List Argument := []
  required : Bool := false
  requiredUnless? : Option Argument := none
  /-- The least and the largest number that is taken. -/
  range? : Option (Nat × Nat) := none

def Argument.usage : Argument → Usage
  | lexFile => { long? := "lex", valueName? := "FILE", conflictsWith := [file] }
  | parseFile => { long? := "parse", valueName? := "FILE", conflictsWith := [file] }
  | json => { long? := "json" }
  | file => { valueName? := "FILE" }
  | source => { valueName? := "FILE", conflictsWith := [code], requiredUnless? := code }
  | code => { long? := "command", short? := 'c', valueName? := "CODE" }
  | target => { long? := "target", short? := 't', valueName? := "TARGET", required := true }
  | output => { long? := "output", short? := 'o', valueName? := "OUT" }
  | indent => { long? := "indent", valueName? := "N", range? := (0, Page.maxIndent) }
  | className => { long? := "class-name", valueName? := "NAME" }
  | help => { long? := "help", short? := 'h' }
  | version => { long? := "version", short? := 'V' }

/-- The values given on the command line, each with its argument. -/
inductive Setting
  | lexFile (path : String)
  | parseFile (path : String)
  | json
  | file (path : String)
  | source (path : String)
  | code (text : String)
  | target (t : Target)
  | output (path : String)
  | indent (width : Nat)
  | className (name : String)
  deriving DecidableEq, Repr

def Setting.argument : Setting → Argument
  | lexFile _ => .lexFile
  | parseFile _ => .parseFile
  | json => .json
  | file _ => .file
  | source _ => .source
  | code _ => .code
  | target _ => .target
  | output _ => .output
  | indent _ => .indent
  | className _ => .className

def Setting.text? : Setting → Option String
  | lexFile text | parseFile text | file text | source text | code text | output text
  | className text => some text
  | _ => none

def Setting.target? : Setting → Option Target
  | target t => some t
  | _ => none

def Setting.number? : Setting → Option Nat
  | indent width => some width
  | _ => none

/-- Why a value does not fit its argument. -/
inductive ValueFault
  | unknownTarget (name : String)
  | integer (fault : Text.IntegerFault)
  | outOfRange (n : Int) (low high : Nat)
  deriving DecidableEq, Repr

def ValueFault.message : ValueFault → String
  | unknownTarget name => Target.unknownMessage name
  | integer fault => fault.message
  | outOfRange n low high =>
    toString n ++ " is not in " ++ toString low ++ "..=" ++ toString high

/-- Why the command line was not understood. -/
inductive Refusal
  | unknownArgument (text : String)
  | missingValue (a : Argument)
  | invalidValue (value : String) (a : Argument) (fault : ValueFault)
  | repeated (a : Argument)
  | conflict (a : Argument) (others : List Argument)
  | missingArguments
  | surplusValue (value : String) (a : Argument)
  | unknownSubcommand (name : String)
  deriving DecidableEq, Repr

namespace Argument

def label (a : Argument) : String :=
  match a.usage.long?, a.usage.valueName? with
  | some long, some value => "--" ++ long ++ " <" ++ value ++ ">"
  | some long, none => "--" ++ long
  | none, value? => "[" ++ value?.getD "" ++ "]"

def takesValue (a : Argument) : Bool := a.usage.valueName?.isSome

/-- Arguments that exclude each other, whichever of the two is declared so. -/
def conflicts (a b : Argument) : Bool := b ∈ a.usage.conflictsWith || a ∈ b.usage.conflictsWith

/-- A number is in the range of its argument. -/
def numberSetting (a : Argument) (make : Nat → Setting) (value : String) :
    Except Refusal Setting :=
  match Text.readInteger value.toList with
  | .error fault => .error (.invalidValue value a (.integer fault))
  | .ok n =>
    let (low, high) := a.usage.range?.getD (0, n.toNat)
    if low ≤ n ∧ n ≤ high then .ok (make n.toNat)
    else .error (.invalidValue value a (.outOfRange n low high))

/-- A path is not empty. -/
def pathSetting (a : Argument) (make : String → Setting) (value : String) :
    Except Refusal Setting :=
  if value = "" then .error (.missingValue a) else .ok (make value)

/-- The setting that a value gives. -/
def setting (a : Argument) (value : String) : Except Refusal Setting :=
  match a with
  | lexFile => pathSetting a .lexFile value
  | parseFile => pathSetting a .parseFile value
  | file => pathSetting a .file value
  | source => pathSetting a .source value
  | output => pathSetting a .output value
  | code => .ok (.code value)
  | className => .ok (.className value)
  | target => match Target.ofName? value with
    | some t => .ok (.target t)
    | none => .error (.invalidValue value a (.unknownTarget value))
  | indent => numberSetting a .indent value
  | json => .ok .json
  | help | version => .error (.surplusValue value a)

end Argument

namespace Refusal

/-- The first line for a terminal: what was given is yellow, and what is known is bold. -/
def heading : Refusal → String
  | unknownArgument text => "unexpected argument '" ++ Text.yellow text ++ "' found"
  | missingValue a =>
    "a value is required for '" ++ Text.bold a.label ++ "' but none was supplied"
  | invalidValue value a fault => "invalid value '" ++ Text.yellow value ++ "' for '" ++
      Text.bold a.label ++ "': " ++ fault.message
  | repeated a => "the argument '" ++ Text.bold a.label ++ "' cannot be used multiple times"
  | conflict a others =>
    "the argument '" ++ Text.bold a.label ++ "' cannot be used with" ++ match others with
      | [other] => " '" ++ Text.bold other.label ++ "'"
      | _ => ":" ++ String.join (others.map fun other => "\n  " ++ Text.bold other.label)
  | missingArguments => "the following required arguments were not provided:"
  | surplusValue value a => "unexpected value '" ++ Text.yellow value ++ "' for '" ++
      Text.bold a.label ++ "' found; no more were expected"
  | unknownSubcommand name => "unrecognized subcommand '" ++ Text.yellow name ++ "'"

/-- The message for a terminal, with a hint below it. -/
def terminalMessage (r : Refusal) : String :=
  Text.red "error:" ++ " " ++ r.heading ++ "\n\nFor more information, try '" ++
    Text.bold "--help" ++ "'.\n"

/-- The plain message. What was given may hold control sequences of its own, and the end of
its colour ends them. -/
def message (r : Refusal) : String := String.ofList (Text.plain r.terminalMessage.toList)

end Refusal

end Scaffold
