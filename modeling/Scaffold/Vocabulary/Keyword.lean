import Scaffold.Vocabulary.Primitive
import Scaffold.Vocabulary.Provenance

/-!
# Keywords

A reserved word is a primitive type name, a control word, or a name with a
meaning of its own. The last kind can still stand where a name is expected.
-/
namespace Scaffold

/-- Words of control flow. -/
inductive Control
  | ifWord
  | elseWord
  | whileWord
  | forWord
  | returnWord
  deriving DecidableEq, Repr

namespace Control

def all : List Control := [ifWord, elseWord, whileWord, forWord, returnWord]

def spelling : Control → String
  | ifWord => "if"
  | elseWord => "else"
  | whileWord => "while"
  | forWord => "for"
  | returnWord => "return"

def label : Control → String
  | ifWord => "If"
  | elseWord => "Else"
  | whileWord => "While"
  | forWord => "For"
  | returnWord => "Return"

end Control

/-- Reserved names: the directive word, the entry point, and the two console functions. -/
inductive Reserved
  | directive
  | entry
  | printf
  | scanf
  deriving DecidableEq, Repr

namespace Reserved

def all : List Reserved := [directive, entry, printf, scanf]

def spelling : Reserved → String
  | directive => "include"
  | entry => "main"
  | printf => "printf"
  | scanf => "scanf"

def label : Reserved → String
  | directive => "Include"
  | entry => "Main"
  | printf => "Printf"
  | scanf => "Scanf"

end Reserved

inductive Keyword
  | type (p : Primitive)
  | control (c : Control)
  | reserved (r : Reserved)
  deriving DecidableEq, Repr

namespace Keyword

/-- The keywords in table order. -/
def all : List Keyword :=
  Primitive.all.map type ++ Control.all.map control ++ Reserved.all.map reserved

def spelling : Keyword → String
  | type p => p.spelling
  | control c => c.spelling
  | reserved r => r.spelling

/-- The name of the keyword in dumps. -/
def label : Keyword → String
  | type p => p.label
  | control c => c.label
  | reserved r => r.label

def primitive? : Keyword → Option Primitive
  | type p => some p
  | _ => none

def isReservedName : Keyword → Bool
  | reserved _ => true
  | _ => false

def provenance (_ : Keyword) : Provenance := .initial

def ofSpelling? (s : String) : Option Keyword := all.find? (·.spelling = s)

@[simp] theorem ofSpelling?_spelling (k : Keyword) : ofSpelling? k.spelling = some k := by
  rcases k with p | c | r
  · cases p <;> decide
  · cases c <;> decide
  · cases r <;> decide

theorem spelling_eq_of_ofSpelling? {s : String} {k : Keyword} (h : ofSpelling? s = some k) :
    k.spelling = s := by
  simpa using List.find?_some h

end Keyword

end Scaffold
