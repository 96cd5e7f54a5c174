import Scaffold.Command.Invocation
import Scaffold.Declaration.Dump
import Scaffold.Skeleton.Render

/-!
# Hosts

What a command leaves to others: the reading of its arguments, the layout of its reports and
dumps, and whether the machine gets through a compilation.
-/
namespace Scaffold

/-- What is left of a program that has ended. -/
structure Outcome where
  exitCode : Nat := 0
  stdout : String := ""
  stderr : String := ""
  deriving DecidableEq, Repr

structure Host where
  /-- What the arguments ask for; if they cannot be read or ask for help, the program ends. -/
  arguments : List String → Except Outcome Invocation
  report : Fault → String
  tokensJson : List Token → Except String String
  programJson : Program → Except String String
  programRecord : Program → String
  /-- Why a compilation breaks off, if it does. -/
  abort? : String → Target → Style → Option Abort

namespace Host

def ofEnding : Ending → Outcome
  | .help topic => { stdout := topic.text }
  | .version => { stdout := versionText }
  | .refused r => { exitCode := 2, stderr := r.message }

/-- The host that reads and writes everything by itself, and never breaks off. -/
def standard : Host where
  arguments args := (Invocation.read args).mapError ofEnding
  report := Fault.report
  tokensJson ts := .ok (Json.array (ts.map Token.toJson)).page
  programJson p := .ok p.toJson.page
  programRecord p := p.toRecord.page
  abort? _ _ _ := none

/-- A compilation that breaks off is an internal fault. -/
def compile (host : Host) (source : String) (t : Target) (style : Style) :
    Except Fault Compilation :=
  Fault.guarded (match host.abort? source t style with
    | some abort => .error abort
    | none => .ok (Scaffold.compile source t style))

end Host

end Scaffold
