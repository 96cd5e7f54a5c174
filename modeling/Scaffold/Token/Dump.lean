import Scaffold.Document.Json
import Scaffold.Document.Record
import Scaffold.Token.Basic

/-!
# Dumps of tokens

A token is shown as its category with its quoted lexeme, as a JSON document or
as a record. A listing has one token a line behind its offsets.
-/
namespace Scaffold

namespace Span

def toJson (s : Span) : Json := .object [("start", .number s.start), ("end", .number s.stop)]

def toRecord (s : Span) : Record :=
  .fields "Span" [("start", .ofNat s.start), ("end", .ofNat s.stop)]

end Span

namespace TokenKind

def toJson : TokenKind → Json
  | keyword k => .object [("Keyword", .text k.label)]
  | operator o => .object [("Operator", .text o.label)]
  | delimiter d => .object [("Delimiter", .text d.label)]
  | ident s => .object [("Ident", .text s)]
  | number s => .object [("Number", .text s)]
  | string s => .object [("String", .text s)]
  | newline => .text "Newline"
  | eof => .text "Eof"

def toRecord : TokenKind → Record
  | keyword k => .call "Keyword" [.word k.label]
  | operator o => .call "Operator" [.word o.label]
  | delimiter d => .call "Delimiter" [.word d.label]
  | ident s => .call "Ident" [.ofString s]
  | number s => .call "Number" [.ofString s]
  | string s => .call "String" [.ofString s]
  | newline => .word "Newline"
  | eof => .word "Eof"

/-- The category with the quoted lexeme in parentheses; only the category for the end. -/
def display (k : TokenKind) : List Char :=
  match k.lexeme? with
  | none => k.category.toList
  | some lexeme => k.category.toList ++ '(' :: Text.quote lexeme ++ [')']

end TokenKind

namespace Token

def toJson (t : Token) : Json := .object [("kind", t.kind.toJson), ("span", t.span.toJson)]

def toRecord (t : Token) : Record :=
  .fields "Token" [("kind", t.kind.toRecord), ("span", t.span.toRecord)]

def display (t : Token) : String := String.ofList t.kind.display

/-- A number set flush right in a column of five. -/
def flushRight (n : Nat) : List Char := (Nat.toDigits 10 n).leftpad 5 ' '

/-- A number set flush left in a column of five. -/
def flushLeft (n : Nat) : List Char := (Nat.toDigits 10 n).rightpad 5 ' '

def listingLine (t : Token) : List Char :=
  flushRight t.span.start ++ ['.', '.'] ++ flushLeft t.span.stop ++ ' ' :: t.kind.display ++ ['\n']

/-- One token a line, behind its two offsets. -/
def listing (ts : List Token) : String := String.ofList (ts.flatMap listingLine)

end Token

end Scaffold
