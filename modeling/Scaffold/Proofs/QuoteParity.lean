import Mathlib.Algebra.Ring.Parity
import Scaffold.Proofs.Lookahead

/-!
# Strings by the parity of quotes

The quotes of a text divide it into parts, and only their number decides which parts
are strings: those behind an odd number of quotes. All other parts are cut on their
own. Nothing else in the text has an influence, whether the quote stands behind a
word, a dot, an operator or a backslash.
-/
namespace Scaffold

namespace Piece

/-- A string that runs to the end of the text. -/
def openString (text : List Char) : Piece :=
  ⟨'\"' :: text, some (.string (String.ofList text))⟩

/-- A string between two quotes. -/
def closedString (text : List Char) : Piece :=
  ⟨'\"' :: text ++ ['\"'], some (.string (String.ofList text))⟩

/-- The pieces of a text, from its parts between the quotes. -/
def ofParts : List (List Char) → List Piece
  | [] => []
  | [part] => split part
  | [part, text] => split part ++ [openString text]
  | part :: text :: next :: parts =>
    split part ++ closedString text :: ofParts (next :: parts)

/-- A part outside of strings is cut on its own, whatever it ends with. -/
lemma split_append_quote {part : List Char} (h : '\"' ∉ part) (rest : List Char) :
    split (part ++ '\"' :: rest) = split part ++ split ('\"' :: rest) := by
  apply split_append_of_separate
  · rw [List.count_eq_zero.mpr h]
    exact Even.zero
  · exact separate_of_mem (by decide) rest

lemma split_openString {text : List Char} (h : '\"' ∉ text) :
    split ('\"' :: text) = [openString text] := by
  rw [split_cons, first_quote, ofQuote_unclosed h, split_nil]
  rfl

lemma split_closedString {text : List Char} (h : '\"' ∉ text) (rest : List Char) :
    split ('\"' :: (text ++ '\"' :: rest)) = closedString text :: split rest := by
  rw [split_cons, first_quote, ofQuote_closed h]
  rfl

/-- Parts without quotes, joined by quotes, are cut part by part. -/
theorem split_intercalate {parts : List (List Char)} (h : ∀ part ∈ parts, '\"' ∉ part) :
    split (['\"'].intercalate parts) = ofParts parts := by
  fun_induction ofParts parts with
  | case1 => simp
  | case2 part => simp
  | case3 part text =>
    have hpart : '\"' ∉ part := h part (by simp)
    have htext : '\"' ∉ text := h text (by simp)
    rw [List.intercalate_cons_cons, List.intercalate_singleton, List.append_assoc,
      List.singleton_append, split_append_quote hpart, split_openString htext]
  | case4 part text next parts ih =>
    have hpart : '\"' ∉ part := h part (by simp)
    have htext : '\"' ∉ text := h text (by simp)
    rw [List.intercalate_cons_cons, List.intercalate_cons_cons, List.append_assoc,
      List.append_assoc, List.singleton_append, List.singleton_append, split_append_quote hpart,
      split_closedString htext, ih fun p hp => h p (by simp [hp])]

/-- The pieces of a text are those of its parts. -/
theorem split_eq_ofParts (cs : List Char) : split cs = ofParts (Text.splitOn '\"' cs) := by
  have hparts : ∀ part ∈ Text.splitOn '\"' cs, '\"' ∉ part := fun part hpart =>
    Text.not_mem_of_mem_splitOn hpart
  rw [← split_intercalate hparts, Text.intercalate_splitOn]

/-- Behind an odd number of quotes the last part is a string that is not closed. -/
lemma exists_ofParts_eq_append {parts : List (List Char)} (hodd : Odd parts.length)
    (last : List Char) : ∃ before, ofParts (parts ++ [last]) = before ++ [openString last] := by
  fun_induction ofParts parts with
  | case1 => simp at hodd
  | case2 part => exact ⟨split part, rfl⟩
  | case3 part text => simp [Nat.odd_iff] at hodd
  | case4 part text next parts ih =>
    have hshort : Odd (next :: parts).length := by
      simp only [List.length_cons, Nat.odd_iff] at hodd ⊢
      omega
    obtain ⟨before, hbefore⟩ := ih hshort
    rw [List.cons_append] at hbefore
    refine ⟨split part ++ closedString text :: before, ?_⟩
    simp only [List.cons_append, ofParts, hbefore, List.append_assoc]

end Piece

/-- What a part of a text reads as: a string if its number is odd, and otherwise the tokens of
its text alone. -/
def TokenKind.ofPart (i : Nat) (part : List Char) : List TokenKind :=
  if Even i then ((lex (String.ofList part)).map Token.kind).dropLast
  else [.string (String.ofList part)]

namespace TokenKind

lemma ofPart_zero (part : List Char) :
    ofPart 0 part = (Piece.split part).filterMap Piece.kind? := by
  rw [ofPart, if_pos Even.zero, map_kind_lex, List.dropLast_concat, String.toList_ofList]

lemma ofPart_one (part : List Char) : ofPart 1 part = [.string (String.ofList part)] := by
  rw [ofPart, if_neg (by decide)]

lemma ofPart_add_two (i : Nat) : ofPart (i + 1 + 1) = ofPart i := by
  funext part
  have hparity : Even (i + 1 + 1) ↔ Even i := by
    rw [Nat.even_iff, Nat.even_iff]
    omega
  simp only [ofPart, hparity]

end TokenKind

/-- The pieces from the parts of a text have the kinds of the parts, one part after the other. -/
lemma Piece.filterMap_kind?_ofParts (parts : List (List Char)) :
    (ofParts parts).filterMap kind? = (parts.mapIdx TokenKind.ofPart).flatten := by
  fun_induction ofParts parts with
  | case1 => rfl
  | case2 part => simp [TokenKind.ofPart_zero]
  | case3 part text =>
    simp [TokenKind.ofPart_zero, TokenKind.ofPart_one, openString]
  | case4 part text next parts ih =>
    rw [List.mapIdx_cons, List.mapIdx_cons, List.flatten_cons, List.flatten_cons]
    simp only [TokenKind.ofPart_add_two]
    rw [← ih, TokenKind.ofPart_zero, TokenKind.ofPart_one, List.filterMap_append]
    rfl

/-- Behind an odd number of quotes, the last token in front of the end is the string from the last
quote to the end. -/
lemma exists_lex_eq_append {source : String} {parts : List (List Char)} {last : List Char}
    (hparts : Text.splitOn '\"' source.toList = parts ++ [last]) (hodd : Odd parts.length) :
    ∃ tokens start, lex source = tokens ++ [⟨.string (String.ofList last),
        ⟨start, source.utf8ByteSize⟩⟩, ⟨.eof, .point source.utf8ByteSize⟩] ∧
      start + 1 + byteSize last = source.utf8ByteSize := by
  obtain ⟨before, hbefore⟩ := Piece.exists_ofParts_eq_append hodd last
  have hsplit : Piece.split source.toList = before ++ [Piece.openString last] := by
    rw [Piece.split_eq_ofParts, hparts, hbefore]
  have hsize : byteSize (before.flatMap Piece.text) + byteSize (Piece.openString last).text =
      source.utf8ByteSize := by
    rw [← byteSize_toList, ← Piece.flatMap_text_split source.toList, hsplit, List.flatMap_append,
      byteSize_append, List.flatMap_singleton]
  refine ⟨Token.lay 0 before, byteSize (before.flatMap Piece.text), ?_, ?_⟩
  · rw [lex_eq_lay, hsplit, Token.lay_append, Nat.zero_add, Token.lay_token rfl, hsize,
      Token.lay_nil, List.append_assoc]
    rfl
  · have hquote : byteSize (Piece.openString last).text = 1 + byteSize last := rfl
    omega

/-- The kinds of a source are those of its parts between the quotes, where every second part is a
string. Behind an odd number of quotes the last part is a string without a closing quote, which
runs to the end of the source. -/
theorem map_kind_lex_splitOn_quote (source : String) :
    (lex source).map Token.kind =
        ((Text.splitOn '\"' source.toList).mapIdx TokenKind.ofPart).flatten ++ [.eof] ∧
      ∀ parts last, Text.splitOn '\"' source.toList = parts ++ [last] → Odd parts.length →
        ∃ tokens start, lex source = tokens ++ [⟨.string (String.ofList last),
            ⟨start, source.utf8ByteSize⟩⟩, ⟨.eof, .point source.utf8ByteSize⟩] ∧
          start + 1 + byteSize last = source.utf8ByteSize := by
  constructor
  · rw [map_kind_lex, Piece.split_eq_ofParts, Piece.filterMap_kind?_ofParts]
  · intro parts last hparts hodd
    exact exists_lex_eq_append hparts hodd

/-- Quotes behind a dot and a backslash, an empty part, and a last quote that is not closed. -/
theorem map_kind_lex_splitOn_quote_odd :
    Text.splitOn '\"' "ab.\"=\n\"1.\"\"\\\"é".toList =
        [['a', 'b', '.'], ['=', '\n'], ['1', '.'], [], ['\\']] ++ [['é']] ∧
      (lex "ab.\"=\n\"1.\"\"\\\"é").map Token.kind =
        [.ident "ab", .string "=\n", .number "1.", .string "", .string "é", .eof] ∧
      ∃ tokens, lex "ab.\"=\n\"1.\"\"\\\"é" =
        tokens ++ [⟨.string "é", ⟨12, 15⟩⟩, ⟨.eof, ⟨15, 15⟩⟩] := by
  have hparts : Text.splitOn '\"' "ab.\"=\n\"1.\"\"\\\"é".toList =
      [['a', 'b', '.'], ['=', '\n'], ['1', '.'], [], ['\\']] ++ [['é']] := by decide +kernel
  obtain ⟨hkinds, hlast⟩ := map_kind_lex_splitOn_quote "ab.\"=\n\"1.\"\"\\\"é"
  obtain ⟨tokens, start, hlex, hstart⟩ := hlast _ _ hparts (by decide)
  have hsize : "ab.\"=\n\"1.\"\"\\\"é".utf8ByteSize = 15 := by decide +kernel
  have htext : byteSize ['é'] = 2 := by decide
  refine ⟨hparts, ?_, tokens, ?_⟩
  · rw [hkinds]
    decide +kernel
  · obtain rfl : start = 12 := by omega
    rw [hlex, hsize]
    rfl

end Scaffold
