import Scaffold.Text.CharClass
import Scaffold.Text.Split
import Scaffold.Vocabulary.Target

/-!
# Faults

What can go wrong around a compilation, and how it is reported. A report has the
code of the fault, its message, and below them its cause and a hint if there are any.
-/
namespace Scaffold

/-- Of two steps that end well, each one does. -/
theorem bind_eq_ok_iff {ε α β : Type} {x : Except ε α} {f : α → Except ε β} {b : β} :
    x >>= f = .ok b ↔ ∃ a, x = .ok a ∧ f a = .ok b := by
  cases x <;> simp [bind, Except.bind]

/-- Why a file could not be read or written. -/
inductive FileError
  | noEntry
  | notDirectory
  | isDirectory
  | notText
  | entityNotFound
  | permissionDenied
  | invalidData
  | other (text : String)
  deriving DecidableEq, Repr

def FileError.message : FileError → String
  | noEntry => "No such file or directory (os error 2)"
  | notDirectory => "Not a directory (os error 20)"
  | isDirectory => "Is a directory (os error 21)"
  | notText => "stream did not contain valid UTF-8"
  | entityNotFound => "entity not found"
  | permissionDenied => "permission denied"
  | invalidData => "invalid data"
  | other text => text

inductive Fault
  | file (path : String) (cause : FileError)
  | tooLarge (path : String) (size limit : Nat)
  | unknownTarget (name : String)
  | internal (detail : String)
  deriving DecidableEq, Repr

/-- How a computation can break off: with a message or without one. -/
inductive Abort
  | message (text : String)
  | unnamed
  deriving DecidableEq, Repr

def Abort.detail : Abort → String
  | message text => text
  | unnamed => "unknown panic payload"

/-- The message for a name that no target has. -/
def Target.unknownMessage (name : String) : String :=
  "unknown target '" ++ name ++ "' (expected one of: " ++ Target.names ++ ")"

namespace Fault

/-- A computation that broke off is an internal fault; all other results pass. -/
def guarded {α : Type} : Except Abort α → Except Fault α
  | .ok a => .ok a
  | .error abort => .error (internal abort.detail)

def message : Fault → String
  | file path _ => "cannot read or write '" ++ path ++ "'"
  | tooLarge path size limit => "source file '" ++ path ++ "' is too large (" ++ toString size ++
      " bytes, max " ++ toString limit ++ " bytes)"
  | unknownTarget name => Target.unknownMessage name
  | internal _ => "compilation failed"

def cause? : Fault → Option String
  | file _ cause => some cause.message
  | _ => none

def code : Fault → String
  | file .. => "skelc::io"
  | tooLarge .. => "skelc::source_too_large"
  | unknownTarget _ => "skelc::unknown_target"
  | internal _ => "skelc::internal"

def hint? : Fault → Option String
  | unknownTarget _ => some "supported targets are `java` and `python`"
  | internal _ => some "this is a bug in skelc; please report it together with the input"
  | _ => none

def exitCode : Fault → Nat
  | internal _ => 70
  | _ => 1

/-- A line behind a mark. Spaces at its end are dropped; the mark stays whole. -/
def marked (mark line : List Char) : List Char :=
  mark ++ (line.reverse.dropWhile (· = ' ')).reverse

/-- The lines of a text, the first one behind a mark of its own. -/
def hang (first rest text : String) : List Char :=
  match Text.splitOn '\n' text.toList with
  | [] => []
  | line :: lines => ['\n'].intercalate
      (marked first.toList line :: lines.map (marked rest.toList))

def report (f : Fault) : String :=
  let heading := f.code.toList ++ ['\n', '\n'] ++ hang "  × " "  │ " f.message
  let cause := f.cause?.map fun text => '\n' :: hang "  ╰─▶ " "      " text
  let hint := f.hint?.map fun text => '\n' :: hang "  help: " "        " text
  String.ofList (Text.trimRight (heading ++ cause.getD [] ++ hint.getD []))

end Fault

end Scaffold
