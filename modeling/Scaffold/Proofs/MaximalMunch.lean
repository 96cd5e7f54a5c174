import Scaffold.Proofs.Lookahead
import Scaffold.Proofs.WrittenTokens

/-!
# Tokens are as long as they can be

Words, numerals and operators take the longest text of their class, and a string
takes all characters up to the next quote. A piece is found by looking at one or
two characters behind it; here nothing but the class and the source from the start
of the token on is mentioned.
-/
namespace Scaffold

/-- The longest text of a class that a text begins with. -/
structure Longest (test : List Char → Bool) (cs text : List Char) : Prop where
  begins : text <+: cs
  passes : test text = true
  longest : ∀ other, other <+: cs → test other = true → other.length ≤ text.length

/-- What a string takes: all up to the first quote behind the opening one, and this quote
with it, or the whole text if there is none. -/
inductive RunsToQuote : List Char → List Char → Prop
  | closed {body rest : List Char} : '\"' ∉ body →
      RunsToQuote ('\"' :: body ++ '\"' :: rest) ('\"' :: body ++ ['\"'])
  | unclosed {body : List Char} : '\"' ∉ body → RunsToQuote ('\"' :: body) ('\"' :: body)

/-- The text that a token of a kind takes of the text it begins. Keywords and identifiers are
one class, in which the vocabulary decides; delimiters, newlines and the end have one
spelling each. -/
def TokenKind.Takes (kind : TokenKind) (cs text : List Char) : Prop :=
  match kind with
  | .keyword _ | .ident _ => Longest Word.isWord cs text ∧
      ∀ k : Keyword, kind = .keyword k ↔ text = k.spelling.toList
  | .number _ => Longest Numeral.isNumeral cs text
  | .operator o => Longest (fun ds => (Operator.ofChars? ds).isSome) cs text ∧
      Operator.ofChars? text = some o
  | .string _ => RunsToQuote cs text
  | .delimiter _ | .newline | .eof => text <+: cs ∧ text = kind.write

namespace Token

/-- The source below a token. -/
def covered (source : String) (t : Token) : List Char := (t.span.slice source).toList

/-- The source from the start of a token on. -/
def onward (source : String) (t : Token) : List Char :=
  (Span.slice ⟨t.span.start, source.utf8ByteSize⟩ source).toList

end Token

namespace Piece

/-- No valid piece begins a text and is longer than the one that is cut off there. -/
lemma Valid.length_le_of_prefix {p q : Piece} (hp : Valid p) (hq : Valid q) {rest : List Char}
    (hrest : p.goesOn rest = false) (hbegins : q.text <+: p.text ++ rest) :
    q.text.length ≤ p.text.length := by
  by_contra hlt
  obtain ⟨more, hmore⟩ : p.text <+: q.text :=
    List.prefix_of_prefix_length_le (List.prefix_append _ _) hbegins (by omega)
  obtain ⟨after, rfl⟩ : more <+: rest := by
    rw [← hmore] at hbegins
    exact (List.prefix_append_right_inj p.text).mp hbegins
  have hstop : p.goesOn more = false := goesOn_of_append hrest
  obtain ⟨c, cs, hcs⟩ := List.exists_cons_of_ne_nil hq.text_ne_nil
  have hfirst := (first_eq_iff c cs p more).mpr ⟨hp, hstop, hmore.trans hcs⟩
  have hfirst' := (first_eq_iff c cs q []).mpr ⟨hq, goesOn_nil q, by rw [List.append_nil, hcs]⟩
  rw [hfirst] at hfirst'
  obtain ⟨rfl, -⟩ := Prod.mk.inj hfirst'
  exact hlt (Nat.le_refl _)

/-- A piece is the longest text of each class that it belongs to and whose texts are pieces. -/
lemma Valid.longest {p : Piece} (hp : Valid p) {rest : List Char} (hrest : p.goesOn rest = false)
    {test : List Char → Bool} (htest : test p.text = true)
    (hpieces : ∀ text, test text = true → ∃ kind, Valid ⟨text, some kind⟩) :
    Longest test (p.text ++ rest) p.text where
  begins := List.prefix_append _ _
  passes := htest
  longest := by
    intro other hother hpass
    obtain ⟨kind, hvalid⟩ := hpieces other hpass
    exact hp.length_le_of_prefix hvalid hrest hother

lemma valid_of_isWord {text : List Char} (h : Word.isWord text = true) :
    ∃ kind, Valid ⟨text, some kind⟩ := by
  refine ⟨.ofWord (String.ofList text), Valid.of_eq ?_ ?_⟩
  · rw [TokenKind.ofWord_write, String.toList_ofList]
  · exact TokenKind.ofWord_isPrintable (by rwa [String.toList_ofList])

lemma valid_of_isNumeral {text : List Char} (h : Numeral.isNumeral text = true) :
    ∃ kind, Valid ⟨text, some kind⟩ := by
  refine ⟨.number (String.ofList text), Valid.of_eq ?_ ?_⟩
  · simp [TokenKind.write, TokenKind.lexeme?]
  · simpa [TokenKind.isPrintable] using h

lemma valid_of_operator {text : List Char} (h : (Operator.ofChars? text).isSome = true) :
    ∃ kind, Valid ⟨text, some kind⟩ := by
  obtain ⟨o, ho⟩ := Option.isSome_iff_exists.mp h
  refine ⟨.operator o, Valid.of_eq ?_ rfl⟩
  simp [TokenKind.write, TokenKind.lexeme?, Operator.spelling, Operator.chars_eq_of_ofChars? ho]

lemma takes_word {s : String} (hword : Word.isWord s.toList = true) {rest : List Char}
    (hrest : Word.goesOn rest = false) :
    Longest Word.isWord (s.toList ++ rest) s.toList ∧
      ∀ k : Keyword, TokenKind.ofWord s = .keyword k ↔ s.toList = k.spelling.toList := by
  have hvalid : Valid ⟨s.toList, some (.ofWord s)⟩ :=
    Valid.of_eq (TokenKind.ofWord_write s).symm (TokenKind.ofWord_isPrintable hword)
  have hstop : Piece.goesOn ⟨s.toList, some (.ofWord s)⟩ rest = false := by
    rcases TokenKind.ofWord_cases s with ⟨k, hk⟩ | hk <;> simpa [goesOn, hk] using hrest
  refine ⟨hvalid.longest hstop hword fun _ => valid_of_isWord, fun k => ?_⟩
  rw [String.toList_inj]
  exact TokenKind.ofWord_eq_keyword_iff s k

/-- A piece takes what its kind allows, in front of a text that does not make it longer. -/
theorem Valid.takes {p : Piece} (hp : Valid p) {kind : TokenKind} (hkind : p.kind? = some kind)
    {rest : List Char} (hrest : p.goesOn rest = false) : kind.Takes (p.text ++ rest) p.text := by
  cases hp with
  | gap => cases hkind
  | @unclosed s hs =>
    cases hkind
    have hnil : rest = [] := by simpa [goesOn] using hrest
    rw [hnil, List.append_nil]
    exact RunsToQuote.unclosed hs
  | @token kind' hprintable =>
    cases hkind
    cases kind with
    | keyword k =>
      have hword := takes_word (isWord_keyword_spelling k) hrest
      rwa [TokenKind.ofWord_spelling] at hword
    | ident s =>
      simp only [TokenKind.isPrintable, Bool.and_eq_true, Option.isNone_iff_eq_none] at hprintable
      have hword := takes_word hprintable.1 hrest
      rwa [TokenKind.ofWord, hprintable.2] at hword
    | number s => exact (Valid.token hprintable).longest hrest hprintable fun _ => valid_of_isNumeral
    | operator o =>
      have htext : Operator.ofChars? (TokenKind.operator o).write = some o := by
        simp [TokenKind.write, TokenKind.lexeme?, Operator.spelling]
      refine ⟨(Valid.token hprintable).longest hrest ?_ fun _ => valid_of_operator, htext⟩
      simp [htext]
    | string s =>
      have hquote : '\"' ∉ s.toList := by simpa [TokenKind.isPrintable] using hprintable
      have hcs : (TokenKind.string s).write ++ rest = '\"' :: s.toList ++ '\"' :: rest := by
        simp [TokenKind.write]
      rw [hcs]
      exact RunsToQuote.closed hquote
    | delimiter d => exact ⟨List.prefix_append _ _, rfl⟩
    | newline => exact ⟨List.prefix_append _ _, rfl⟩
    | eof => simp [TokenKind.isPrintable] at hprintable

end Piece

namespace Token

lemma covered_eq {source : String} {t : Token} {before text rest : List Char}
    (hsource : source.toList = before ++ text ++ rest)
    (hspan : t.span = ⟨byteSize before, byteSize before + byteSize text⟩) :
    t.covered source = text := by
  have hcovers : t.span.Covers source.toList text := ⟨before, rest, hsource, hspan⟩
  rw [covered, hcovers.slice_eq, String.toList_ofList]

lemma onward_eq {source : String} {t : Token} {before text rest : List Char}
    (hsource : source.toList = before ++ text ++ rest)
    (hspan : t.span = ⟨byteSize before, byteSize before + byteSize text⟩) :
    t.onward source = text ++ rest := by
  have hcovers : Span.Covers ⟨t.span.start, source.utf8ByteSize⟩ source.toList (text ++ rest) := by
    refine ⟨before, [], by simp [hsource], ?_⟩
    rw [← byteSize_toList, hsource, hspan]
    simp only [byteSize_append, Nat.add_assoc]
  rw [onward, hcovers.slice_eq, String.toList_ofList]

end Token

/-- Each token takes as much of the source as its class allows: the longest word, numeral or
operator that begins where it starts, or a string up to the next quote. -/
theorem takes_of_mem_lex {source : String} {t : Token} (h : t ∈ lex source) :
    t.kind.Takes (t.onward source) (t.covered source) := by
  rw [lex_eq_lay, List.mem_append, List.mem_singleton] at h
  rcases h with h | rfl
  · obtain ⟨before, p, rest, hsource, hspan, hkind, hvalid, hrest⟩ :=
      Token.exists_text_of_mem_lay h
    rw [Token.covered_eq hsource hspan, Token.onward_eq hsource hspan]
    exact hvalid.takes hkind hrest
  · have hspan : Span.point source.utf8ByteSize =
        ⟨byteSize source.toList, byteSize source.toList + byteSize []⟩ := by
      rw [byteSize_toList]
      rfl
    have hsource : source.toList = source.toList ++ [] ++ [] := by simp
    rw [Token.covered_eq hsource hspan, Token.onward_eq hsource hspan]
    exact ⟨List.nil_prefix, rfl⟩

/-- A word that begins with a keyword, between an operator and a dot that leads to no word. -/
theorem takes_of_mem_lex_dotted :
    (⟨.ident "int.x_1", ⟨3, 10⟩⟩ : Token) ∈ lex "é=int.x_1.9.." ∧
      Longest Word.isWord "int.x_1.9..".toList "int.x_1".toList ∧
      ∀ k : Keyword, "int.x_1" ≠ k.spelling := by
  have hmem : (⟨.ident "int.x_1", ⟨3, 10⟩⟩ : Token) ∈ lex "é=int.x_1.9.." := by decide +kernel
  obtain ⟨hlongest, hkeyword⟩ := takes_of_mem_lex hmem
  have hcovered : Token.covered "é=int.x_1.9.." ⟨.ident "int.x_1", ⟨3, 10⟩⟩ = "int.x_1".toList := by
    decide +kernel
  have honward : Token.onward "é=int.x_1.9.." ⟨.ident "int.x_1", ⟨3, 10⟩⟩ =
      "int.x_1.9..".toList := by decide +kernel
  rw [hcovered, honward] at hlongest
  refine ⟨hmem, hlongest, fun k hk => ?_⟩
  cases (hkeyword k).mpr (by rw [hcovered, hk])

end Scaffold
