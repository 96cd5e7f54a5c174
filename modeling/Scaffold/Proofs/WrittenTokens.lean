import Scaffold.Proofs.Lookahead

/-!
# Texts that spell token kinds

`Spells` builds a text from its end, one token or space after the other. A token
can be put in front of a text that does not make it longer, and reading gives the
kinds back in their order. A single space keeps any two tokens apart, so the kinds
that can be written are exactly those that a text can hold.
-/
namespace Scaffold

/-- The text holds tokens of these kinds, with spaces in any places between them. -/
inductive Spells : List Char → List TokenKind → Prop
  | nil : Spells [] []
  | space {cs : List Char} {kinds : List TokenKind} : Spells cs kinds → Spells (' ' :: cs) kinds
  | token (kind : TokenKind) {cs : List Char} {kinds : List TokenKind} :
      kind.isPrintable = true → Piece.goesOn ⟨kind.write, some kind⟩ cs = false →
      Spells cs kinds → Spells (kind.write ++ cs) (kind :: kinds)

lemma insignificant_space : Piece.Insignificant ' ' := Or.inl ⟨by decide, by decide⟩

namespace Spells

variable {cs : List Char} {kinds : List TokenKind}

lemma exists_pieces (h : Spells cs kinds) :
    ∃ ps, Piece.Cut ps ∧ ps.flatMap Piece.text = cs ∧ ps.filterMap Piece.kind? = kinds := by
  induction h with
  | nil => exact ⟨[], Piece.Cut.nil, rfl, rfl⟩
  | space _ ih =>
    obtain ⟨ps, hcut, rfl, rfl⟩ := ih
    exact ⟨⟨[' '], none⟩ :: ps, Piece.Cut.cons (Piece.Valid.gap insignificant_space) rfl hcut,
      rfl, rfl⟩
  | token kind hkind hrest _ ih =>
    obtain ⟨ps, hcut, rfl, rfl⟩ := ih
    exact ⟨⟨kind.write, some kind⟩ :: ps, Piece.Cut.cons (Piece.Valid.token hkind) hrest hcut,
      rfl, rfl⟩

/-- A text is read as the kinds that it spells. -/
theorem map_kind_lex {source : String} (h : Spells source.toList kinds) :
    (lex source).map Token.kind = kinds ++ [.eof] := by
  obtain ⟨ps, hcut, htext, hkinds⟩ := h.exists_pieces
  have hsplit := (Piece.split_eq_iff source.toList ps).mpr ⟨hcut, htext⟩
  rw [Scaffold.map_kind_lex, hsplit, hkinds]

lemma delimiter (d : Delimiter) {c : Char} (hd : d.char = c) (h : Spells cs kinds) :
    Spells (c :: cs) (.delimiter d :: kinds) := by
  have htoken := Spells.token (.delimiter d) rfl rfl h
  simpa [TokenKind.write, TokenKind.lexeme?, Delimiter.spelling, hd] using htoken

lemma newline (h : Spells cs kinds) : Spells ('\n' :: cs) (.newline :: kinds) :=
  Spells.token .newline rfl rfl h

lemma operator (o : Operator) {c d : Char} (ho : o.chars = [c]) (hd : o.extend? d = none)
    (h : Spells (d :: cs) kinds) : Spells (c :: d :: cs) (.operator o :: kinds) := by
  have htoken := Spells.token (.operator o) rfl (by simp [Piece.goesOn, hd]) h
  simpa [TokenKind.write, TokenKind.lexeme?, Operator.spelling, ho] using htoken

/-- Only operators are made longer by a character that is no part of words and numerals. -/
lemma separated {kind : TokenKind} (hkind : kind.isPrintable = true)
    (hoperator : ∀ o, kind ≠ .operator o) {c : Char} (hc : Word.continues c = false)
    (hdot : c ≠ '.') (h : Spells (c :: cs) kinds) :
    Spells (kind.write ++ c :: cs) (kind :: kinds) := by
  have hword := Word.goesOn_cons_eq_false hc hdot cs
  have hdigit : c.isDigit = false := by
    rw [Piece.continues_eq, Bool.or_eq_false_iff] at hc
    exact hc.2
  refine Spells.token kind hkind ?_ h
  cases kind with
  | keyword | ident => exact hword
  | number s => exact Numeral.goesOn_cons_eq_false hdigit hdot _ cs
  | string s => simp [Piece.goesOn, TokenKind.write]
  | operator o => exact absurd rfl (hoperator o)
  | delimiter | newline | eof => rfl

/-- A space keeps a token apart from any text. -/
lemma spaced {kind : TokenKind} (hkind : kind.isPrintable = true) (h : Spells cs kinds) :
    Spells (kind.write ++ ' ' :: cs) (kind :: kinds) := by
  refine Spells.token kind hkind ?_ (space h)
  exact Piece.goesOn_of_separate (Piece.Valid.token hkind) (Piece.closed_write hkind)
    (Piece.separate_of_mem (by decide) cs)

/-- Kinds written with single spaces between them are spelled in their order. -/
theorem intercalate {kinds : List TokenKind} (h : kinds.all TokenKind.isPrintable = true) :
    Spells ([' '].intercalate (kinds.map TokenKind.write)) kinds := by
  induction kinds with
  | nil => exact Spells.nil
  | cons kind kinds ih =>
    rw [List.all_cons, Bool.and_eq_true] at h
    cases kinds with
    | nil =>
      have hlast := Spells.token kind h.1 (Piece.goesOn_nil _) Spells.nil
      simpa using hlast
    | cons next kinds =>
      have hspaced := spaced h.1 (ih h.2)
      simpa [List.intercalate_cons_cons] using hspaced

end Spells

namespace TokenKind

@[simp] lemma ofWord_spelling (k : Keyword) : ofWord k.spelling = .keyword k := by simp [ofWord]

lemma ofWord_cases (s : String) : (∃ k, ofWord s = .keyword k) ∨ ofWord s = .ident s := by
  unfold ofWord
  cases Keyword.ofSpelling? s with
  | none => exact Or.inr rfl
  | some k => exact Or.inl ⟨k, rfl⟩

lemma ofWord_lexeme? (s : String) : (ofWord s).lexeme? = some s := by
  unfold ofWord
  cases hk : Keyword.ofSpelling? s with
  | none => rfl
  | some k => exact congrArg some (Keyword.spelling_eq_of_ofSpelling? hk)

lemma ofWord_eq_keyword_iff (s : String) (k : Keyword) : ofWord s = .keyword k ↔ s = k.spelling := by
  constructor
  · intro h
    have hlexeme := ofWord_lexeme? s
    rw [h] at hlexeme
    exact (Option.some.inj hlexeme).symm
  · rintro rfl
    exact ofWord_spelling k

lemma ofWord_write (s : String) : (ofWord s).write = s.toList := by
  have hlexeme := ofWord_lexeme? s
  unfold ofWord at hlexeme ⊢
  cases hk : Keyword.ofSpelling? s with
  | none => rfl
  | some k =>
    rw [hk] at hlexeme
    exact congrArg String.toList (Option.some.inj hlexeme)

lemma ofWord_isPrintable {s : String} (h : Word.isWord s.toList = true) :
    (ofWord s).isPrintable = true := by
  unfold ofWord
  cases hk : Keyword.ofSpelling? s with
  | none => simp [isPrintable, h, hk]
  | some k => rfl

end TokenKind

/-- Kinds that can be written are read back from their text, whatever stands next to each
other, and the kinds of every source can be written. -/
theorem map_kind_lex_writeAll :
    (∀ kinds : List TokenKind, kinds.all TokenKind.isPrintable = true →
      (lex (TokenKind.writeAll kinds)).map Token.kind = kinds ++ [.eof]) ∧
    ∀ source : String, ∃ kinds : List TokenKind, kinds.all TokenKind.isPrintable = true ∧
      (lex source).map Token.kind = kinds ++ [.eof] := by
  constructor
  · intro kinds h
    apply Spells.map_kind_lex
    rw [TokenKind.writeAll, String.toList_ofList]
    exact Spells.intercalate h
  · intro source
    refine ⟨(Token.lay 0 (Piece.split source.toList)).map Token.kind, ?_, ?_⟩
    · rw [List.all_map, List.all_eq_true]
      intro t ht
      exact Token.isPrintable_of_mem_lay ht
    · rw [lex_eq_lay, List.map_append]
      rfl

/-- Neighbours that would join without the space between them. -/
theorem map_kind_lex_writeAll_joining :
    (lex "10. 5 < = + ++ a.b int x \" = \n\" \"\" \n").map Token.kind =
      [.number "10.", .number "5", .operator .lt, .operator .eq, .operator .plus,
        .operator .plusPlus, .ident "a.b", .keyword (.type .int), .ident "x", .string " = \n",
        .string "", .newline, .eof] := by
  refine Eq.trans ?_ (map_kind_lex_writeAll.1 [.number "10.", .number "5", .operator .lt,
    .operator .eq, .operator .plus, .operator .plusPlus, .ident "a.b", .keyword (.type .int),
    .ident "x", .string " = \n", .string "", .newline] (by decide +kernel))
  congr 2

end Scaffold
