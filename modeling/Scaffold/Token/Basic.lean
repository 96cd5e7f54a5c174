import Scaffold.Span
import Scaffold.Vocabulary.Delimiter
import Scaffold.Vocabulary.Keyword
import Scaffold.Vocabulary.Operator

/-!
# Tokens

A token is a kind with a span. Reserved words and signs carry their vocabulary
entry, the open classes carry their text.
-/
namespace Scaffold

inductive TokenKind
  | keyword (k : Keyword)
  | operator (o : Operator)
  | delimiter (d : Delimiter)
  | ident (text : String)
  | number (text : String)
  | string (text : String)
  | newline
  | eof
  deriving DecidableEq, Repr

namespace TokenKind

def category : TokenKind → String
  | keyword _ => "keyword"
  | operator _ => "operator"
  | delimiter _ => "delimiter"
  | ident _ => "identifier"
  | number _ => "number"
  | string _ => "string"
  | newline => "newline"
  | eof => "eof"

/-- The text of the token without the quotes of a string; the end of input has none. -/
def lexeme? : TokenKind → Option String
  | keyword k => some k.spelling
  | operator o => some o.spelling
  | delimiter d => some d.spelling
  | ident text => some text
  | number text => some text
  | string text => some text
  | newline => some "\n"
  | eof => none

/-- Layout tokens separate lines or end the input. -/
def isLayout : TokenKind → Bool
  | newline | eof => true
  | _ => false

def keyword? : TokenKind → Option Keyword
  | keyword k => some k
  | _ => none

/-- The type that a token opens a declaration with. -/
def declarable? : TokenKind → Option Primitive
  | keyword (.type p) => if p.declarable then some p else none
  | _ => none

/-- The text of a token that can name something: an identifier or a reserved name. -/
def name? : TokenKind → Option String
  | ident text => some text
  | keyword (.reserved r) => some r.spelling
  | _ => none

theorem name?_eq_none_of_declarable? {k : TokenKind} {p : Primitive}
    (h : k.declarable? = some p) : k.name? = none := by
  cases k with
  | keyword k => cases k <;> simp_all [declarable?, name?]
  | _ => simp_all [declarable?]

theorem lexeme?_isSome (k : TokenKind) : k.lexeme?.isSome = true ↔ k ≠ .eof := by
  cases k <;> simp [lexeme?]

end TokenKind

structure Token where
  kind : TokenKind
  span : Span
  deriving DecidableEq, Repr

end Scaffold
