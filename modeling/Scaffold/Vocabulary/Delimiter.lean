import Scaffold.Vocabulary.Provenance

/-!
# Delimiters

Each delimiter is a single character.
-/
namespace Scaffold

inductive Delimiter
  | lparen
  | rparen
  | lbrace
  | rbrace
  | lbracket
  | rbracket
  | semicolon
  | comma
  | hash
  deriving DecidableEq, Repr

namespace Delimiter

/-- The delimiters in table order. -/
def all : List Delimiter :=
  [lparen, rparen, lbrace, rbrace, lbracket, rbracket, semicolon, comma, hash]

def char : Delimiter → Char
  | lparen => '('
  | rparen => ')'
  | lbrace => '\x7b'
  | rbrace => '\x7d'
  | lbracket => '['
  | rbracket => ']'
  | semicolon => ';'
  | comma => ','
  | hash => '#'

def spelling (d : Delimiter) : String := String.singleton d.char

/-- The name of the delimiter in dumps. -/
def label : Delimiter → String
  | lparen => "LParen"
  | rparen => "RParen"
  | lbrace => "LBrace"
  | rbrace => "RBrace"
  | lbracket => "LBracket"
  | rbracket => "RBracket"
  | semicolon => "Semicolon"
  | comma => "Comma"
  | hash => "Hash"

def provenance (_ : Delimiter) : Provenance := .initial

def ofChar? : Char → Option Delimiter
  | '(' => some lparen
  | ')' => some rparen
  | '\x7b' => some lbrace
  | '\x7d' => some rbrace
  | '[' => some lbracket
  | ']' => some rbracket
  | ';' => some semicolon
  | ',' => some comma
  | '#' => some hash
  | _ => none

@[simp] theorem ofChar?_char (d : Delimiter) : ofChar? d.char = some d := by
  cases d <;> rfl

theorem char_eq_of_ofChar? {c : Char} {d : Delimiter} (h : ofChar? c = some d) : d.char = c := by
  unfold ofChar? at h
  split at h <;> first | (cases h; rfl) | cases h

end Delimiter

end Scaffold
