import Scaffold.Command.FileSystem

/-!
# Sessions

A session is a run of a command seen from outside: it asks for sizes and contents of files,
writes files, and ends with a text or an error. It can be played on every file system.
-/
namespace Scaffold

/-- Why a command did not do what it was asked for. -/
inductive CommandError
  | fault (f : Fault)
  | unserializable (text : String)
  | noSource
  | noInput
  deriving DecidableEq, Repr

def CommandError.exitCode : CommandError → Nat
  | fault f => f.exitCode
  | _ => 1

inductive Session
  | done (result : Except CommandError String)
  | size (path : String) (next : Except FileError Nat → Session)
  | read (path : String) (next : Except FileError ByteArray → Session)
  | write (path text : String) (next : Except FileError Unit → Session)

namespace Session

variable {σ φ : Type}

/-- The result of a session, and what the files are afterwards. -/
def play (fs : FileSystem σ φ) : Session → σ → Except CommandError String × σ
  | done result, s => (result, s)
  | size path next, s => (next (fs.size s path)).play fs s
  | read path next, s => (next (fs.read s path)).play fs s
  | write path text next, s =>
    let (answer, t) := fs.write s path text.toUTF8
    (next answer).play fs t

def fail (f : Fault) : Session := done (.error (.fault f))

def print (text : String) : Session := done (.ok text)

end Session

/-- The largest source file that is read, in bytes. -/
def maxSourceSize : Nat := 16 * 1024 * 1024

/-- The text of a source file. -/
def sourceText (path : String) (content : Except FileError ByteArray) : Except Fault String :=
  match content with
  | .error e => .error (.file path e)
  | .ok bytes => match String.fromUTF8? bytes with
    | some text => .ok text
    | none => .error (.file path .notText)

namespace Session

/-- Goes on with the text of a source file, which is not read if it is too large. -/
def withSource (path : String) (next : String → Session) : Session :=
  size path fun
    | .error e => fail (.file path e)
    | .ok n =>
      if maxSourceSize < n then fail (.tooLarge path n maxSourceSize)
      else read path fun content => match sourceText path content with
        | .error f => fail f
        | .ok text => next text

/-- A session for a source asks two questions, and then goes on or fails. -/
theorem withSource_induction {motive : Session → Prop} {path : String} {next : String → Session}
    (fail : ∀ f, motive (fail f))
    (size : ∀ next, (∀ answer, motive (next answer)) → motive (size path next))
    (read : ∀ next, (∀ answer, motive (next answer)) → motive (read path next))
    (source : ∀ text, motive (next text)) : motive (withSource path next) := by
  refine size _ fun answer => ?_
  cases answer with
  | error e => exact fail _
  | ok n =>
    simp only
    split
    · exact fail _
    · refine read _ fun content => ?_
      cases sourceText path content with
      | error f => exact fail f
      | ok text => exact source text

/-- Puts a text into a file, or prints it. -/
def deliver (output? : Option String) (text : String) : Session :=
  match output? with
  | none => print text
  | some path => write path text fun
    | .error e => fail (.file path e)
    | .ok () => print ""

end Session

end Scaffold
