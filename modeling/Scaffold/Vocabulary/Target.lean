import Scaffold.Text.CharClass

/-!
# Target languages

A target is chosen by name. Blanks around the name and the case of ASCII letters
do not matter.
-/
namespace Scaffold

inductive Target
  | java
  | python
  deriving DecidableEq, Repr

namespace Target

def all : List Target := [java, python]

def name : Target → String
  | java => "java"
  | python => "python"

def ofName? (s : String) : Option Target :=
  all.find? fun t => (Text.trim s.toList).map Char.toLower = t.name.toList

/-- The names in table order, for messages. -/
def names : String := ", ".intercalate (all.map name)

end Target

end Scaffold
