import Scaffold.Text.Quoted

/-!
# Record documents

A second form for dumps: names in front of the fields and arguments they hold.
It is printed on one line, or with one entry a line.
-/
namespace Scaffold

inductive Record
  | plain (chars : List Char)
  | call (name : String) (arguments : List Record)
  | fields (name : String) (entries : List (String × Record))
  | list (items : List Record)

namespace Record

def ofNat (n : Nat) : Record := plain (Nat.toDigits 10 n)

def ofString (s : String) : Record := plain (Text.quote s)

/-- A constructor without arguments. -/
def word (name : String) : Record := plain name.toList

def ofOption {α : Type} (f : α → Record) : Option α → Record
  | none => word "None"
  | some a => call "Some" [f a]

mutual

def inline : Record → List Char
  | plain chars => chars
  | call name arguments =>
    name.toList ++ '(' :: [',', ' '].intercalate (inlineItems arguments) ++ [')']
  | fields name entries =>
    name.toList ++ [' ', '\x7b', ' '] ++ [',', ' '].intercalate (inlineFields entries) ++
      [' ', '\x7d']
  | list items => '[' :: [',', ' '].intercalate (inlineItems items) ++ [']']

def inlineItems : List Record → List (List Char)
  | [] => []
  | item :: items => inline item :: inlineItems items

def inlineFields : List (String × Record) → List (List Char)
  | [] => []
  | (name, value) :: entries => (name.toList ++ ':' :: ' ' :: inline value) :: inlineFields entries

end

/-- Entries on lines of their own, each with a comma, or the brackets alone. -/
def enclose (opening closing : Char) (depth : Nat) : List (List Char) → List Char
  | [] => [opening, closing]
  | entries =>
    let margin := List.replicate (4 * (depth + 1)) ' '
    opening :: '\n' :: entries.flatMap (fun entry => margin ++ entry ++ [',', '\n']) ++
      List.replicate (4 * depth) ' ' ++ [closing]

mutual

def pretty (depth : Nat) : Record → List Char
  | plain chars => chars
  | call name arguments =>
    name.toList ++ enclose '(' ')' depth (prettyItems (depth + 1) arguments)
  | fields name entries =>
    name.toList ++ ' ' :: enclose '\x7b' '\x7d' depth (prettyFields (depth + 1) entries)
  | list items => enclose '[' ']' depth (prettyItems (depth + 1) items)

def prettyItems (depth : Nat) : List Record → List (List Char)
  | [] => []
  | item :: items => pretty depth item :: prettyItems depth items

def prettyFields (depth : Nat) : List (String × Record) → List (List Char)
  | [] => []
  | (name, value) :: entries =>
    (name.toList ++ ':' :: ' ' :: pretty depth value) :: prettyFields depth entries

end

def line (r : Record) : String := String.ofList r.inline

def page (r : Record) : String := String.ofList (r.pretty 0)

end Record

end Scaffold
