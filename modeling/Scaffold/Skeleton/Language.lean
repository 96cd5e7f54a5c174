import Scaffold.Declaration.Basic
import Scaffold.Layout
import Scaffold.Vocabulary.Primitive

/-!
# Languages of skeletons

In Java, functions become static methods that throw, variables become static
fields, and a program with an entry point becomes a class around its members. In
Python, functions become definitions that pass, variables become assignments, and
a program with an entry point calls it behind the guard for scripts.
-/
namespace Scaffold

/-- A source type in a target language: its name and its default value. -/
structure Spelling where
  name : String
  default : String
  deriving DecidableEq, Repr

/-- The choices that the user of a skeleton has: how deep a level is indented, how many blank
lines stand between members, and what the enclosing class is called. -/
structure Style where
  indentWidth : Nat := 4
  blankLines : Nat := 1
  className : String := "Main"
  deriving DecidableEq, Repr

namespace Java

def spelling : Primitive → Spelling
  | .int => ⟨"int", "0"⟩
  | .float => ⟨"float", "0.0f"⟩
  | .double => ⟨"double", "0.0"⟩
  | .char => ⟨"char", "'\\0'"⟩
  | .void => ⟨"void", "null"⟩
  | .bool => ⟨"boolean", "false"⟩
  | .long => ⟨"long", "0L"⟩
  | .short => ⟨"short", "0"⟩

/-- The spelling of every name that is no primitive type. -/
def otherSpelling : Spelling := ⟨"Object", "null"⟩

def spellingOf (type : String) : Spelling :=
  ((Primitive.ofSpelling? type).map spelling).getD otherSpelling

/-- Console input is the only library with a counterpart. -/
def importLine? (i : Include) : Option String :=
  if i.library = "stdio.h" then some "import java.util.Scanner;" else none

def entryPoint : List Step :=
  [.block "public static void main(String[] args)"
    [.line "Scanner scanner = new Scanner(System.in);",
      .line "System.out.println(\"Program translated from C\");"]]

def param (p : Param) : String := (spellingOf p.type).name ++ " " ++ p.name

def signature (f : Function) : String :=
  "public static " ++ (spellingOf f.returnType).name ++ " " ++ f.name ++ "(" ++
    ", ".intercalate (f.params.map param) ++ ")"

def function (f : Function) : List Step :=
  [.block (signature f) [.line "throw new UnsupportedOperationException(\"Not implemented\");"]]

def field (v : Variable) : List Step :=
  let spelling := spellingOf v.type
  [.line ("static " ++ spelling.name ++ " " ++ v.name ++ " = " ++
    v.initializer?.getD spelling.default ++ ";")]

def enclose (style : Style) (members : List Step) : List Step :=
  [.block ("public class " ++ style.className) members]

end Java

namespace Python

def spelling : Primitive → Spelling
  | .int => ⟨"int", "0"⟩
  | .float => ⟨"float", "0.0"⟩
  | .double => ⟨"float", "0.0"⟩
  | .char => ⟨"str", "''"⟩
  | .void => ⟨"None", "None"⟩
  | .bool => ⟨"bool", "False"⟩
  | .long => ⟨"int", "0"⟩
  | .short => ⟨"int", "0"⟩

/-- The spelling of every name that is no primitive type. -/
def otherSpelling : Spelling := ⟨"object", "None"⟩

def spellingOf (type : String) : Spelling :=
  ((Primitive.ofSpelling? type).map spelling).getD otherSpelling

def entryPoint : List Step :=
  [.suite "def main()" [.line "print(\"Program translated from C\")"]]

def param (p : Param) : String := p.name ++ ": " ++ (spellingOf p.type).name

def signature (f : Function) : String :=
  "def " ++ f.name ++ "(" ++ ", ".intercalate (f.params.map param) ++ ") -> " ++
    (spellingOf f.returnType).name

def function (f : Function) : List Step := [.suite (signature f) [.line "pass"]]

def assignment (v : Variable) : List Step :=
  [.line (v.name ++ " = " ++ v.initializer?.getD (spellingOf v.type).default)]

def enclose (style : Style) (members : List Step) : List Step :=
  members ++ [.blanks style.blankLines,
    .suite "if __name__ == \"__main__\"" [.line "main()"]]

end Python

end Scaffold
