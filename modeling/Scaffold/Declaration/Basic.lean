import Scaffold.Span

/-!
# Declarations

A program is a list of declarations with their spans: library inclusions,
functions and variables. Types are kept by name. Statements are not read, so a
function body has nothing to hold.
-/
namespace Scaffold

/-- Statements of function bodies. There are none. -/
inductive Statement
  deriving DecidableEq, Repr

structure Param where
  type : String
  name : String
  deriving DecidableEq, Repr

structure Include where
  library : String
  deriving DecidableEq, Repr

structure Function where
  returnType : String
  name : String
  params : List Param
  body : List Statement := []
  deriving DecidableEq, Repr

structure Variable where
  type : String
  name : String
  initializer? : Option String
  deriving DecidableEq, Repr

/-- The name of the function that a program starts with. -/
def Function.entryName : String := "main"

def Function.isEntry (f : Function) : Bool := f.name = entryName

/-- A function body holds no statement. -/
theorem Function.body_eq_nil (f : Function) : f.body = [] := by
  cases h : f.body with
  | nil => rfl
  | cons s _ => cases s

inductive Declaration
  | inclusion (i : Include)
  | function (f : Function)
  | var (v : Variable)
  deriving DecidableEq, Repr

namespace Declaration

def include? : Declaration → Option Include
  | inclusion i => some i
  | _ => none

def function? : Declaration → Option Function
  | function f => some f
  | _ => none

def var? : Declaration → Option Variable
  | var v => some v
  | _ => none

end Declaration

structure Program where
  declarations : List (Spanned Declaration)
  deriving DecidableEq, Repr

namespace Program

/-- The declarations without their spans. -/
def nodes (p : Program) : List Declaration := p.declarations.map Spanned.node

def includes (p : Program) : List Include := p.nodes.filterMap Declaration.include?

def functions (p : Program) : List Function := p.nodes.filterMap Declaration.function?

def vars (p : Program) : List Variable := p.nodes.filterMap Declaration.var?

/-- The first function with the entry name. -/
def entryPoint? (p : Program) : Option Function := p.functions.find? Function.isEntry

end Program

end Scaffold
