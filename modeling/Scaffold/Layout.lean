/-!
# Layouts and pages

Indented text is described by a tree of steps. Blocks and suites hold the steps
between their header and their end. A page is the text written so far, the level
of indentation, and the text that one level stands for. Steps only ever append to
the text.
-/
namespace Scaffold

inductive Step
  | line (text : String)
  | blanks (count : Nat)
  | margin
  | indent
  | dedent
  /-- Steps between braces, one level deeper. -/
  | block (header : String) (body : List Step)
  /-- Steps under a header with a colon, one level deeper. -/
  | suite (header : String) (body : List Step)

namespace Step

/-- Groups of steps with the same number of blank lines between any two. -/
def separate (gap : Nat) : List (List Step) → List Step
  | [] => []
  | [steps] => steps
  | steps :: groups => steps ++ blanks gap :: separate gap groups

end Step

structure Page where
  text : String := ""
  level : Nat := 0
  unit : String := ""
  deriving DecidableEq, Repr

namespace Page

/-- Indentation is no wider than this, whatever was asked for. -/
def maxIndent : Nat := 16

/-- An empty page that indents by a number of spaces. -/
def ofWidth (width : Nat) : Page :=
  { unit := String.ofList (List.replicate (min width maxIndent) ' ') }

def isEmpty (p : Page) : Bool := p.text.isEmpty

/-- The indentation of the current level. -/
def marginText (p : Page) : String := String.join (List.replicate p.level p.unit)

def margin (p : Page) : Page := { p with text := p.text ++ p.marginText }

def line (p : Page) (s : String) : Page := { p with text := p.text ++ p.marginText ++ s ++ "\n" }

def blanks (p : Page) (count : Nat) : Page :=
  { p with text := p.text ++ String.ofList (List.replicate count '\n') }

def indent (p : Page) : Page := { p with level := p.level + 1 }

/-- The outermost level has none above it. -/
def dedent (p : Page) : Page := { p with level := p.level - 1 }

mutual

def step (p : Page) : Step → Page
  | .line s => p.line s
  | .blanks count => p.blanks count
  | .margin => p.margin
  | .indent => p.indent
  | .dedent => p.dedent
  | .block header body => ((steps (p.line (header ++ " \x7b")).indent body).dedent).line "\x7d"
  | .suite header body => (steps (p.line (header ++ ":")).indent body).dedent

/-- One step after the other. -/
def steps (p : Page) : List Step → Page
  | [] => p
  | s :: rest => steps (step p s) rest

end

@[simp] theorem steps_nil (p : Page) : p.steps [] = p := rfl

@[simp] theorem steps_cons (p : Page) (s : Step) (rest : List Step) :
    p.steps (s :: rest) = (p.step s).steps rest := rfl

end Page

end Scaffold
