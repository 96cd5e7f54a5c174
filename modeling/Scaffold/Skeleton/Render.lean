import Scaffold.Declaration.Segment
import Scaffold.Skeleton.Language
import Scaffold.Token.Lexer
import Scaffold.Vocabulary.Target

/-!
# Rendering a program as a skeleton

Import lines come first, then the members in their order with blank lines
between them. An entry point gets a member of its own form, and the members of
a program that has one are enclosed. A compilation is one pass from a source text
to the text of its skeleton. It is total: what cannot be read is left out.
-/
namespace Scaffold

namespace Target

def spelling : Target → Primitive → Spelling
  | java => Java.spelling
  | python => Python.spelling

def spellingOf : Target → String → Spelling
  | java => Java.spellingOf
  | python => Python.spellingOf

def importLine? : Target → Include → Option String
  | java, i => Java.importLine? i
  | python, _ => none

def entryPoint : Target → List Step
  | java => Java.entryPoint
  | python => Python.entryPoint

def function : Target → Function → List Step
  | java => Java.function
  | python => Python.function

def variableSteps : Target → Variable → List Step
  | java => Java.field
  | python => Python.assignment

def enclose : Target → Style → List Step → List Step
  | java => Java.enclose
  | python => Python.enclose

/-- The member that a declaration becomes; an inclusion becomes none. -/
def member? (t : Target) : Declaration → Option (List Step)
  | .inclusion _ => none
  | .function f => some (if f.isEntry then t.entryPoint else t.function f)
  | .var v => some (t.variableSteps v)

/-- The members of a program, enclosed if one of them is the entry point. -/
def body (t : Target) (style : Style) (p : Program) : List Step :=
  let members := Step.separate style.blankLines (p.nodes.filterMap t.member?)
  if p.entryPoint?.isSome then t.enclose style members else members

/-- The steps of a whole skeleton. -/
def skeleton (t : Target) (style : Style) (p : Program) : List Step :=
  let imports := p.includes.filterMap t.importLine?
  if p.nodes.filterMap t.member? = [] then imports.map Step.line
  else if imports = [] then t.body style p
  else imports.map Step.line ++ .blanks style.blankLines :: t.body style p

end Target

/-- The text of a program's skeleton. -/
def Program.render (p : Program) (t : Target) (style : Style) : String :=
  ((Page.ofWidth style.indentWidth).steps (t.skeleton style p)).text

/-- The text of a skeleton, with the tokens and the program it came from. -/
structure Compilation where
  tokens : List Token
  program : Program
  output : String
  deriving DecidableEq, Repr

def compile (source : String) (target : Target) (style : Style) : Compilation :=
  let tokens := lex source
  let program := parse tokens
  { tokens, program, output := program.render target style }

end Scaffold
