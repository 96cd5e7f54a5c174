import Scaffold.Text.CharClass
import Scaffold.Token.Basic
import Scaffold.Token.Word

/-!
# Pieces of a source text

A source text is cut into pieces from left to right. A piece covers at least
one character and is a token or insignificant. No character is lost: the
pieces put together again are the text.
-/
namespace Scaffold

structure Piece where
  text : List Char
  /-- What the piece reads as; none for insignificant text. -/
  kind? : Option TokenKind
  deriving DecidableEq, Repr

namespace Piece

/-- A string runs to the next quote or to the end; nothing inside it is escaped. -/
def ofQuote (cs : List Char) : Piece × List Char :=
  let body := cs.takeWhile (· ≠ '\"')
  let kind := TokenKind.string (String.ofList body)
  match cs.dropWhile (· ≠ '\"') with
  | [] => (⟨'\"' :: body, some kind⟩, [])
  | close :: rest => (⟨'\"' :: body ++ [close], some kind⟩, rest)

def ofDigit (c : Char) (cs : List Char) : Piece × List Char :=
  let (more, rest) := Numeral.split cs
  (⟨c :: more, some (.number (String.ofList (c :: more)))⟩, rest)

/-- A word is a keyword where the vocabulary has it, else an identifier. -/
def ofWord (c : Char) (cs : List Char) : Piece × List Char :=
  let (more, rest) := Word.split cs
  let word := String.ofList (c :: more)
  let kind := match Keyword.ofSpelling? word with
    | some k => TokenKind.keyword k
    | none => TokenKind.ident word
  (⟨c :: more, some kind⟩, rest)

/-- An operator takes a second character where the two spell an operator. -/
def ofOperator (o : Operator) (c : Char) (cs : List Char) : Piece × List Char :=
  match cs with
  | [] => (⟨[c], some (.operator o)⟩, [])
  | d :: rest => match o.extend? d with
    | some p => (⟨[c, d], some (.operator p)⟩, rest)
    | none => (⟨[c], some (.operator o)⟩, d :: rest)

/-- The first piece of the text `c :: cs`, and the text after it. -/
def first (c : Char) (cs : List Char) : Piece × List Char :=
  if c = '\n' then (⟨[c], some .newline⟩, cs)
  else if Text.isBlank c then (⟨[c], none⟩, cs)
  else if c = '\"' then ofQuote cs
  else if c.isDigit then ofDigit c cs
  else if Word.starts c then ofWord c cs
  else match Operator.ofChar? c, Delimiter.ofChar? c with
    | some o, _ => ofOperator o c cs
    | none, some d => (⟨[c], some (.delimiter d)⟩, cs)
    | none, none => (⟨[c], none⟩, cs)

theorem ofQuote_append (cs : List Char) :
    (ofQuote cs).1.text ++ (ofQuote cs).2 = '\"' :: cs := by
  have hcs := List.takeWhile_append_dropWhile (p := (· ≠ '\"')) (l := cs)
  simp only [ofQuote]
  split
  · rename_i h
    rw [h] at hcs
    simpa using hcs
  · rename_i close rest h
    rw [h] at hcs
    simpa using hcs

theorem ofOperator_append (o : Operator) (c : Char) (cs : List Char) :
    (ofOperator o c cs).1.text ++ (ofOperator o c cs).2 = c :: cs := by
  unfold ofOperator
  split
  · rfl
  · split <;> rfl

/-- The first piece and the text after it make up the text. -/
theorem first_append (c : Char) (cs : List Char) :
    (first c cs).1.text ++ (first c cs).2 = c :: cs := by
  unfold first
  split
  · rfl
  split
  · rfl
  split
  · rename_i h
    rw [ofQuote_append, h]
  split
  · simp [ofDigit, Numeral.split_append]
  split
  · simp [ofWord, Word.split_append]
  split
  · exact ofOperator_append _ _ _
  · rfl
  · rfl

theorem ofOperator_text_ne_nil (o : Operator) (c : Char) (cs : List Char) :
    (ofOperator o c cs).1.text ≠ [] := by
  unfold ofOperator
  split
  · simp
  · split <;> simp

theorem ofQuote_text_ne_nil (cs : List Char) : (ofQuote cs).1.text ≠ [] := by
  simp only [ofQuote]
  split <;> simp

/-- A piece covers at least one character. -/
theorem first_text_ne_nil (c : Char) (cs : List Char) : (first c cs).1.text ≠ [] := by
  unfold first
  split
  · simp
  split
  · simp
  split
  · exact ofQuote_text_ne_nil cs
  split
  · simp [ofDigit]
  split
  · simp [ofWord]
  split
  · exact ofOperator_text_ne_nil _ _ _
  · simp
  · simp

theorem first_rest_length_le (c : Char) (cs : List Char) :
    (first c cs).2.length ≤ cs.length := by
  have h := congrArg List.length (first_append c cs)
  have hpos := List.length_pos_iff.mpr (first_text_ne_nil c cs)
  simp only [List.length_append, List.length_cons] at h
  omega

/-- The pieces of a text, from left to right. -/
def split : List Char → List Piece
  | [] => []
  | c :: cs => (first c cs).1 :: split (first c cs).2
termination_by cs => cs.length
decreasing_by
  have h := first_rest_length_le c cs
  simp only [List.length_cons]
  omega

@[simp] theorem split_nil : split [] = [] := by rw [split]

theorem split_cons (c : Char) (cs : List Char) :
    split (c :: cs) = (first c cs).1 :: split (first c cs).2 := by rw [split]

/-- The pieces put together again are the text. -/
theorem flatMap_text_split (cs : List Char) : (split cs).flatMap text = cs := by
  fun_induction split cs with
  | case1 => rfl
  | case2 c cs ih => rw [List.flatMap_cons, ih, first_append]

end Piece

end Scaffold
