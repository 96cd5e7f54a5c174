import Scaffold.Command.Argument
import Scaffold.Command.Help
import Scaffold.Skeleton.Language
import Scaffold.Text.Similarity

/-!
# Reading the command line

Arguments are read from left to right into settings. A value that stands apart
from its option, and a positional value, is looked at when the next argument
takes its turn; an argument that is not known is refused before that. The
subcommand is read and checked as a whole before the level above it.
-/
namespace Scaffold

/-- What the emit subcommand was asked for. -/
structure Emission where
  file? : Option String
  code? : Option String
  target : Target
  output? : Option String
  indent? : Option Nat
  className? : Option String
  deriving DecidableEq, Repr

structure Invocation where
  emit? : Option Emission
  file? : Option String
  lexFile? : Option String
  parseFile? : Option String
  json : Bool
  deriving DecidableEq, Repr

/-- Why reading ended without an invocation. -/
inductive Ending
  | help (topic : Topic)
  | version
  | refused (r : Refusal)
  deriving DecidableEq, Repr

inductive Level
  | top
  | emit
  deriving DecidableEq, Repr

namespace Level

def arguments : Level → List Argument
  | top => [.file, .lexFile, .parseFile, .json, .help, .version]
  | emit => [.source, .code, .target, .output, .indent, .className, .help]

def long? (level : Level) (name : String) : Option Argument :=
  level.arguments.find? fun a => a.usage.long? = some name

def short? (level : Level) (c : Char) : Option Argument :=
  level.arguments.find? fun a => a.usage.short? = some c

def positional : Level → Argument
  | top => .file
  | emit => .source

def subcommands : Level → List String
  | top => ["emit", "help"]
  | emit => []

def topic : Level → Topic
  | top => .overview
  | emit => .emit

end Level

/-- The settings read so far, and an argument whose value is still to come or to be looked at. -/
structure Reading where
  given : List Setting := []
  waiting? : Option (Argument × Option String) := none
  positionalTaken : Bool := false
  /-- Behind the separator everything is positional. -/
  positionalOnly : Bool := false
  deriving DecidableEq, Repr

namespace Reading

def has (r : Reading) (a : Argument) : Bool := r.given.any (·.argument = a)

/-- A value is counted, then its argument must be new, then the value is looked at. -/
def accept (r : Reading) (a : Argument) (value? : Option String) : Except Refusal Reading :=
  match value? with
  | none => .error (.missingValue a)
  | some value =>
    if r.has a then .error (.repeated a)
    else do
      let setting ← a.setting value
      return { r with given := r.given ++ [setting] }

/-- Looks at the value of the argument that waits. -/
def settle (r : Reading) : Except Refusal Reading :=
  match r.waiting? with
  | none => .ok r
  | some (a, value?) => accept { r with waiting? := none } a value?

/-- An option is open as long as its value may still follow. -/
def isOpen (r : Reading) : Bool :=
  match r.waiting? with
  | some (_, none) => true
  | _ => false

def refuse {α : Type} (r : Refusal) : Except Ending α := .error (.refused r)

def lift {α : Type} : Except Refusal α → Except Ending α
  | .ok a => .ok a
  | .error r => refuse r

/-- An option without a value. -/
def flag (r : Reading) (level : Level) (a : Argument) : Except Ending Reading := do
  let r ← lift r.settle
  match a with
  | .help => .error (.help level.topic)
  | .version => .error .version
  | a => lift (r.accept a (some ""))

/-- An option with a value, which stands in the same argument or in the next one. -/
def option (r : Reading) (a : Argument) (attached? : Option String) : Except Ending Reading := do
  let r ← lift r.settle
  match attached? with
  | some value => lift (r.accept a (some value))
  | none => return { r with waiting? := some (a, none) }

/-- An argument that starts with two hyphens; its name ends before the first equals sign. -/
def long (r : Reading) (level : Level) (text : List Char) : Except Ending Reading :=
  let name := String.ofList (text.takeWhile (· ≠ '='))
  let attached? := match text.dropWhile (· ≠ '=') with
    | [] => none
    | _ :: value => some (String.ofList value)
  match level.long? name with
  | none => refuse (.unknownArgument ("--" ++ name))
  | some a =>
    if a.takesValue then r.option a attached?
    else match attached? with
      | some value => refuse (.surplusValue value a)
      | none => r.flag level a

/-- Options of one letter behind one hyphen; the first that takes a value takes the rest. -/
def shorts (r : Reading) (level : Level) : List Char → Except Ending Reading
  | [] => .ok r
  | c :: cs => match level.short? c with
    | none => refuse (.unknownArgument (String.ofList ['-', c]))
    | some a =>
      if a.takesValue then r.option a (match cs with
        | [] => none
        | '=' :: value => some (String.ofList value)
        | value => some (String.ofList value))
      else do
        let r ← r.flag level a
        shorts r level cs

/-- There is one positional argument; a further one may be a subcommand gone wrong. -/
def positional (r : Reading) (level : Level) (text : String) : Except Ending Reading :=
  if r.positionalTaken then
    if text ∉ level.subcommands ∧
        level.subcommands.any (fun name => Text.similar text.toList name.toList) then
      refuse (.unknownSubcommand text)
    else refuse (.unknownArgument text)
  else do
    let r ← lift r.settle
    return { r with waiting? := some (level.positional, some text), positionalTaken := true }

/-- One argument that enters no subcommand. -/
def argument (r : Reading) (level : Level) (text : String) : Except Ending Reading :=
  if r.positionalOnly then r.positional level text
  else match text.toList with
    | ['-', '-'] => .ok { r with positionalOnly := true }
    | '-' :: '-' :: name => r.long level name
    | '-' :: c :: cs => r.shorts level (c :: cs)
    | _ => match r.waiting? with
      | some (a, none) => .ok { r with waiting? := some (a, some text) }
      | _ => r.positional level text

/-- Reads to the end, or to a subcommand, whose name and arguments are then left. -/
def arguments (r : Reading) (level : Level) :
    List String → Except Ending (Reading × Option (String × List String))
  | [] => .ok (r, none)
  | text :: rest =>
    if !r.positionalOnly && !r.isOpen && text ∈ level.subcommands then .ok (r, some (text, rest))
    else do
      let r ← r.argument level text
      r.arguments level rest

/-- The first argument given that excludes others, with all of those. -/
def conflict? (r : Reading) : Option Refusal :=
  let found := r.given.map Setting.argument
  found.findSome? fun a => match found.filter a.conflicts with
    | [] => none
    | others => some (.conflict a others)

/-- An argument is missing that is required, or required as long as another one is missing. -/
def lacks (r : Reading) (a : Argument) : Bool :=
  !r.has a && (a.usage.required || a.usage.requiredUnless?.any (!r.has ·))

/-- The last value is looked at, then arguments that exclude each other are refused, then it is
seen to that none is missing. -/
def finish (r : Reading) (level : Level) : Except Refusal Reading := do
  let r ← r.settle
  match r.conflict? with
  | some refusal => .error refusal
  | none => if level.arguments.any r.lacks then .error .missingArguments else return r

def find {α : Type} (r : Reading) (pick : Setting → Option α) : Option α := r.given.findSome? pick

/-- The text that an argument was given. -/
def text? (r : Reading) (a : Argument) : Option String :=
  r.find fun s => if s.argument = a then s.text? else none

def emission (r : Reading) : Except Refusal Emission := do
  let r ← r.finish .emit
  match r.find Setting.target? with
  | none => .error .missingArguments
  | some target => return {
      file? := r.text? .source
      code? := r.text? .code
      target
      output? := r.text? .output
      indent? := r.find Setting.number?
      className? := r.text? .className }

end Reading

namespace Emission

def read (args : List String) : Except Ending Emission := do
  let (r, _) ← Reading.arguments {} .emit args
  Reading.lift r.emission

/-- The default style with what was asked for on top. -/
def style (e : Emission) : Style :=
  let style : Style := {}
  { style with
    indentWidth := e.indent?.getD style.indentWidth
    className := e.className?.getD style.className }

end Emission

namespace Invocation

def subcommand : Option (String × List String) → Except Ending (Option Emission)
  | none => .ok none
  | some ("help", names) => match Topic.ofNames names with
    | .ok topic => .error (.help topic)
    | .error name => Reading.refuse (.unknownSubcommand name)
  | some (_, args) => some <$> Emission.read args

/-- The invocation that the arguments ask for. -/
def read (args : List String) : Except Ending Invocation := do
  let (r, rest?) ← Reading.arguments {} .top args
  let emit? ← subcommand rest?
  let r ← Reading.lift (r.finish .top)
  return {
    emit?
    file? := r.text? .file
    lexFile? := r.text? .lexFile
    parseFile? := r.text? .parseFile
    json := r.has .json }

end Invocation

end Scaffold
