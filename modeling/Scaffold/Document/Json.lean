import Scaffold.Text.Quoted

/-!
# JSON documents

The values that dumps are made of, with a printer on one line and a printer with
one entry a line. Fields keep their order. Strings escape quotes, backslashes
and the control characters below the space, and nothing else.
-/
namespace Scaffold

inductive Json
  | null
  | number (n : Nat)
  | text (s : String)
  | array (items : List Json)
  | object (fields : List (String × Json))

namespace Json

def escape (c : Char) : List Char :=
  if c = '\"' then ['\\', '\"']
  else if c = '\\' then ['\\', '\\']
  else if c = '\x08' then ['\\', 'b']
  else if c = '\x0c' then ['\\', 'f']
  else if c = '\n' then ['\\', 'n']
  else if c = '\r' then ['\\', 'r']
  else if c = '\t' then ['\\', 't']
  else if c.toNat < 0x10 then ['\\', 'u', '0', '0', '0'] ++ Text.hex c.toNat
  else if c.toNat < 0x20 then ['\\', 'u', '0', '0'] ++ Text.hex c.toNat
  else [c]

def quote (s : String) : List Char := '\"' :: s.toList.flatMap escape ++ ['\"']

mutual

def compact : Json → List Char
  | null => ['n', 'u', 'l', 'l']
  | number n => Nat.toDigits 10 n
  | text s => quote s
  | array items => '[' :: [','].intercalate (compactItems items) ++ [']']
  | object fields => '\x7b' :: [','].intercalate (compactFields fields) ++ ['\x7d']

def compactItems : List Json → List (List Char)
  | [] => []
  | item :: items => compact item :: compactItems items

def compactFields : List (String × Json) → List (List Char)
  | [] => []
  | (name, value) :: fields => (quote name ++ ':' :: compact value) :: compactFields fields

end

/-- Entries on lines of their own between two brackets, or the brackets alone. -/
def enclose (opening closing : Char) (depth : Nat) : List (List Char) → List Char
  | [] => [opening, closing]
  | entries =>
    let margin := List.replicate (2 * (depth + 1)) ' '
    opening :: '\n' :: [',', '\n'].intercalate (entries.map (margin ++ ·)) ++
      '\n' :: List.replicate (2 * depth) ' ' ++ [closing]

mutual

def pretty (depth : Nat) : Json → List Char
  | null => ['n', 'u', 'l', 'l']
  | number n => Nat.toDigits 10 n
  | text s => quote s
  | array items => enclose '[' ']' depth (prettyItems (depth + 1) items)
  | object fields => enclose '\x7b' '\x7d' depth (prettyFields (depth + 1) fields)

def prettyItems (depth : Nat) : List Json → List (List Char)
  | [] => []
  | item :: items => pretty depth item :: prettyItems depth items

def prettyFields (depth : Nat) : List (String × Json) → List (List Char)
  | [] => []
  | (name, value) :: fields =>
    (quote name ++ ':' :: ' ' :: pretty depth value) :: prettyFields depth fields

end

/-- The document on one line, without blanks. -/
def line (j : Json) : String := String.ofList j.compact

/-- The document with one entry a line, indented by two. -/
def page (j : Json) : String := String.ofList (j.pretty 0)

end Json

end Scaffold
