import Scaffold.Vocabulary.Provenance

/-!
# Operators

Operators are one or two characters long. A one-character operator is extended
by the character after it exactly when the two spell another operator.
-/
namespace Scaffold

inductive OperatorKind
  | arithmetic
  | assignment
  | comparison
  | logical
  | bitwise
  | increment
  deriving DecidableEq, Repr

inductive Operator
  | plus
  | minus
  | star
  | slash
  | percent
  | eq
  | lt
  | gt
  | eqEq
  | notEq
  | ltEq
  | gtEq
  | bang
  | andAnd
  | orOr
  | amp
  | pipe
  | caret
  | tilde
  | plusPlus
  | minusMinus
  deriving DecidableEq, Repr

namespace Operator

/-- The operators in table order. -/
def all : List Operator :=
  [plus, minus, star, slash, percent, eq, lt, gt, eqEq, notEq, ltEq, gtEq, bang, andAnd, orOr,
    amp, pipe, caret, tilde, plusPlus, minusMinus]

def chars : Operator → List Char
  | plus => ['+']
  | minus => ['-']
  | star => ['*']
  | slash => ['/']
  | percent => ['%']
  | eq => ['=']
  | lt => ['<']
  | gt => ['>']
  | eqEq => ['=', '=']
  | notEq => ['!', '=']
  | ltEq => ['<', '=']
  | gtEq => ['>', '=']
  | bang => ['!']
  | andAnd => ['&', '&']
  | orOr => ['|', '|']
  | amp => ['&']
  | pipe => ['|']
  | caret => ['^']
  | tilde => ['~']
  | plusPlus => ['+', '+']
  | minusMinus => ['-', '-']

def spelling (o : Operator) : String := String.ofList o.chars

/-- The name of the operator in dumps. -/
def label : Operator → String
  | plus => "Plus"
  | minus => "Minus"
  | star => "Star"
  | slash => "Slash"
  | percent => "Percent"
  | eq => "Eq"
  | lt => "Lt"
  | gt => "Gt"
  | eqEq => "EqEq"
  | notEq => "NotEq"
  | ltEq => "LtEq"
  | gtEq => "GtEq"
  | bang => "Bang"
  | andAnd => "AndAnd"
  | orOr => "OrOr"
  | amp => "Amp"
  | pipe => "Pipe"
  | caret => "Caret"
  | tilde => "Tilde"
  | plusPlus => "PlusPlus"
  | minusMinus => "MinusMinus"

def kind : Operator → OperatorKind
  | plus | minus | star | slash | percent => .arithmetic
  | eq => .assignment
  | lt | gt | eqEq | notEq | ltEq | gtEq => .comparison
  | bang | andAnd | orOr => .logical
  | amp | pipe | caret | tilde => .bitwise
  | plusPlus | minusMinus => .increment

def provenance (_ : Operator) : Provenance := .initial

def isCompound (o : Operator) : Bool := o.chars.length = 2

def ofChars? (cs : List Char) : Option Operator := all.find? (·.chars = cs)

def ofSpelling? (s : String) : Option Operator := ofChars? s.toList

/-- The operator that one character spells. -/
def ofChar? : Char → Option Operator
  | '+' => some plus
  | '-' => some minus
  | '*' => some star
  | '/' => some slash
  | '%' => some percent
  | '=' => some eq
  | '<' => some lt
  | '>' => some gt
  | '!' => some bang
  | '&' => some amp
  | '|' => some pipe
  | '^' => some caret
  | '~' => some tilde
  | _ => none

/-- The operator spelled by an operator and one more character. -/
def extend? (o : Operator) (c : Char) : Option Operator := ofChars? (o.chars ++ [c])

@[simp] theorem ofChars?_chars (o : Operator) : ofChars? o.chars = some o := by
  cases o <;> decide

theorem chars_eq_of_ofChars? {cs : List Char} {o : Operator} (h : ofChars? cs = some o) :
    o.chars = cs := by
  simpa using List.find?_some h

theorem chars_of_ofChar? {c : Char} {o : Operator} (h : ofChar? c = some o) : o.chars = [c] := by
  unfold ofChar? at h
  split at h <;> first | (cases h; rfl) | cases h

theorem chars_of_extend? {o p : Operator} {c : Char} (h : o.extend? c = some p) :
    p.chars = o.chars ++ [c] := chars_eq_of_ofChars? h

end Operator

end Scaffold
