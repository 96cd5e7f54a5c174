import Scaffold.Declaration.Basic
import Scaffold.Token.Printer

/-!
# Writing declarations

The source text of a declaration, one line each, and the declarations that can
be read back from it.
-/
namespace Scaffold

/-- A name is a word that is no keyword, or a reserved name. -/
def isName (name : String) : Bool :=
  match Keyword.ofSpelling? name with
  | none => Word.isWord name.toList
  | some k => k.isReservedName

def isDeclarableType (type : String) : Bool :=
  (Primitive.ofSpelling? type).any Primitive.declarable

theorem exists_primitive_of_isDeclarableType {type : String} (h : isDeclarableType type = true) :
    ∃ p : Primitive, Primitive.ofSpelling? type = some p ∧ p.declarable = true := by
  unfold isDeclarableType at h
  cases hp : Primitive.ofSpelling? type with
  | none => simp [hp] at h
  | some p => exact ⟨p, rfl, by simpa [hp] using h⟩

/-- A value fits into one token if it holds no quote. -/
def isValue (value : String) : Bool := !value.toList.contains '\"'

/-- Words and numerals are written bare, all other values between quotes. -/
def writeValue (value : String) : List Char :=
  if Word.isWord value.toList || Numeral.isNumeral value.toList then value.toList
  else '\"' :: value.toList ++ ['\"']

namespace Param

def isWellFormed (p : Param) : Bool := isDeclarableType p.type && isName p.name

def write (p : Param) : List Char := p.type.toList ++ ' ' :: p.name.toList

end Param

namespace Declaration

def isWellFormed : Declaration → Bool
  | inclusion i => isValue i.library
  | function f => isDeclarableType f.returnType && isName f.name && f.params.all Param.isWellFormed
  | var v => isDeclarableType v.type && isName v.name && v.initializer?.all isValue

def write : Declaration → List Char
  | inclusion i => "#include <".toList ++ writeValue i.library ++ ['>', '\n']
  | function f => f.returnType.toList ++ ' ' :: f.name.toList ++
      '(' :: [',', ' '].intercalate (f.params.map Param.write) ++ [')', ';', '\n']
  | var v => v.type.toList ++ ' ' :: v.name.toList ++ (match v.initializer? with
      | none => []
      | some value => [' ', '=', ' '] ++ writeValue value) ++ [';', '\n']

def writeAll (ds : List Declaration) : String := String.ofList (ds.flatMap write)

/-- The types and names that a declaration introduces, in the order they are written. -/
def introduced : Declaration → List (String × String)
  | inclusion _ => []
  | function f => (f.returnType, f.name) :: f.params.map fun p => (p.type, p.name)
  | var v => [(v.type, v.name)]

end Declaration

end Scaffold
