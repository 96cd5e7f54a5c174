/-!
# Primitive types

The type names of the source language. Only some of them can open a
declaration; the others are reserved words without that use.
-/
namespace Scaffold

inductive Primitive
  | int
  | float
  | double
  | char
  | void
  | bool
  | long
  | short
  deriving DecidableEq, Repr

namespace Primitive

def all : List Primitive := [int, float, double, char, void, bool, long, short]

def spelling : Primitive → String
  | int => "int"
  | float => "float"
  | double => "double"
  | char => "char"
  | void => "void"
  | bool => "bool"
  | long => "long"
  | short => "short"

/-- The name of the type in dumps. -/
def label : Primitive → String
  | int => "Int"
  | float => "Float"
  | double => "Double"
  | char => "Char"
  | void => "Void"
  | bool => "Bool"
  | long => "Long"
  | short => "Short"

/-- A declarable type can open a variable, a function or a parameter. -/
def declarable : Primitive → Bool
  | int | float | double | char | void => true
  | bool | long | short => false

def ofSpelling? (s : String) : Option Primitive := all.find? (·.spelling = s)

@[simp] theorem ofSpelling?_spelling (p : Primitive) : ofSpelling? p.spelling = some p := by
  cases p <;> decide

end Primitive

end Scaffold
