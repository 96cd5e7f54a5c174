import Scaffold.Proofs.WordGrammar
import Scaffold.Token.Piece

/-!
# Pieces against their grammar

The pieces of a text are determined by a grammar of single pieces and by a
condition on neighbours: no piece is followed by a text that makes it longer.
`Piece.first_eq_iff` and `Piece.split_eq_iff` state this as equivalences, so later
results speak about lists of pieces and never open the functions that cut them.
-/
namespace Scaffold

/-- The kind of a word: a keyword where the vocabulary has it, else an identifier. -/
def TokenKind.ofWord (s : String) : TokenKind :=
  (Keyword.ofSpelling? s).elim (.ident s) .keyword

namespace Piece

/-- Characters that are no part of a token outside of strings: the blanks except the
newline, and all characters that belong to no class of the language. -/
def Insignificant (c : Char) : Prop :=
  (Text.isBlank c = true ∧ c ≠ '\n') ∨
    (c ≠ '\n' ∧ c ≠ '\"' ∧ c.isAlpha = false ∧ c.isDigit = false ∧ c ≠ '_' ∧
      (∀ o : Operator, c ∉ o.chars) ∧ ∀ d : Delimiter, c ≠ d.char)

/-- The pieces a text can be cut into. Only a string has two forms, one of them without
the closing quote. -/
inductive Valid : Piece → Prop
  | gap {c : Char} : Insignificant c → Valid ⟨[c], none⟩
  | token {kind : TokenKind} : kind.isPrintable = true → Valid ⟨kind.write, some kind⟩
  | unclosed {s : String} : '\"' ∉ s.toList → Valid ⟨'\"' :: s.toList, some (.string s)⟩

/-- Texts that make a piece in front of them longer. -/
def goesOn (p : Piece) (rest : List Char) : Bool :=
  match p.kind? with
  | some (.keyword _) | some (.ident _) => Word.goesOn rest
  | some (.number _) => Numeral.goesOn p.text rest
  | some (.operator o) => rest.head?.any fun c => (o.extend? c).isSome
  | some (.string s) => p.text = '\"' :: s.toList && rest ≠ []
  | _ => false

lemma starts_iff_toNat (c : Char) : Word.starts c = true ↔
    (65 ≤ c.toNat ∧ c.toNat ≤ 90) ∨ (97 ≤ c.toNat ∧ c.toNat ≤ 122) ∨ c.toNat = 95 := by
  have hunderscore : c = '_' ↔ c.toNat = 95 := Char.toNat_inj.symm
  have halpha : c.isAlpha =
      (decide (65 ≤ c.val ∧ c.val ≤ 90) || (decide (97 ≤ c.val) && decide (c.val ≤ 122))) := rfl
  simp only [Word.starts, halpha, Bool.or_eq_true, Bool.and_eq_true, decide_eq_true_eq,
    UInt32.le_iff_toNat_le, hunderscore]
  exact or_assoc

lemma continues_eq (c : Char) : Word.continues c = (Word.starts c || c.isDigit) := by
  simp only [Word.continues, Word.starts, Char.isAlphanum]
  cases c.isAlpha <;> cases c.isDigit <;> simp

lemma isDigit_eq_false_of_starts {c : Char} (h : Word.starts c = true) :
    c.isDigit = false := by
  rw [starts_iff_toNat] at h
  rw [Bool.eq_false_iff, Ne, Char.isDigit_iff_toNat]
  change ¬(48 ≤ c.toNat ∧ c.toNat ≤ 57)
  omega

/-- Blanks lie outside of the code points of words and numerals. -/
lemma isBlank_eq_false_of_continues {c : Char} (h : Word.continues c = true) :
    Text.isBlank c = false := by
  have hcode : c.toNat ≠ 32 ∧ 48 ≤ c.toNat ∧ c.toNat ≤ 122 := by
    rw [continues_eq, Bool.or_eq_true, starts_iff_toNat, Char.isDigit_iff_toNat] at h
    change _ ∨ 48 ≤ c.toNat ∧ c.toNat ≤ 57 at h
    omega
  simp only [Text.isBlank, Text.blanks, Text.CharClass.has, Text.CharClass.hasCode_cons,
    Text.CharClass.hasCode_nil, Bool.and_eq_false_iff, Bool.or_eq_false_iff,
    decide_eq_false_iff_not]
  omega

lemma ne_of_continues {c d : Char} (h : Word.continues c = true)
    (hd : Word.continues d = false) : c ≠ d := by
  rintro rfl
  simp [hd] at h

lemma first_gap {c : Char} (h : Insignificant c) (cs : List Char) :
    first c cs = (⟨[c], none⟩, cs) := by
  rcases h with ⟨hblank, hline⟩ |
    ⟨hline, hquote, halpha, hdigit, hunderscore, hoperator, hdelimiter⟩
  · simp [first, hline, hblank]
  · have hstarts : Word.starts c = false := by simp [Word.starts, halpha, hunderscore]
    have ho : Operator.ofChar? c = none := by
      rw [Option.eq_none_iff_forall_ne_some]
      intro o hsome
      exact hoperator o (by rw [Operator.chars_of_ofChar? hsome]; simp)
    have hd : Delimiter.ofChar? c = none := by
      rw [Option.eq_none_iff_forall_ne_some]
      intro d hsome
      exact hdelimiter d (Delimiter.char_eq_of_ofChar? hsome).symm
    simp [first, hline, hquote, hdigit, hstarts, ho, hd]

lemma first_quote (cs : List Char) : first '\"' cs = ofQuote cs := by
  simp [first, show Text.isBlank '\"' = false by decide]

lemma first_digit {c : Char} (h : c.isDigit = true) (cs : List Char) :
    first c cs = ofDigit c cs := by
  have hcontinues : Word.continues c = true := by simp [continues_eq, h]
  have hblank := isBlank_eq_false_of_continues hcontinues
  have hline : c ≠ '\n' := ne_of_continues hcontinues (by decide)
  have hquote : c ≠ '\"' := ne_of_continues hcontinues (by decide)
  simp [first, hline, hblank, hquote, h]

lemma first_word {c : Char} (h : Word.starts c = true) (cs : List Char) :
    first c cs = ofWord c cs := by
  have hcontinues := Word.continues_of_starts h
  have hblank := isBlank_eq_false_of_continues hcontinues
  have hdigit := isDigit_eq_false_of_starts h
  have hline : c ≠ '\n' := ne_of_continues hcontinues (by decide)
  have hquote : c ≠ '\"' := ne_of_continues hcontinues (by decide)
  simp [first, hline, hblank, hquote, hdigit, h]

lemma first_operator {o : Operator} {c : Char} (h : o.chars = [c]) (cs : List Char) :
    first c cs = ofOperator o c cs := by
  cases o <;> cases h <;> rfl

lemma first_delimiter (d : Delimiter) (cs : List Char) :
    first d.char cs = (⟨[d.char], some (.delimiter d)⟩, cs) := by
  cases d <;> rfl

lemma Valid.of_eq {text : List Char} {kind : TokenKind} (htext : text = kind.write)
    (hkind : kind.isPrintable = true) : Valid ⟨text, some kind⟩ := htext ▸ Valid.token hkind

/-- A significant piece is the token as it is written, or a string without its end. -/
lemma Valid.kind_cases {p : Piece} {kind : TokenKind} (h : Valid p) (hkind : p.kind? = some kind) :
    kind.isPrintable = true ∧
      (p.text = kind.write ∨ ∃ s : String, kind = .string s ∧ p.text = '\"' :: s.toList) := by
  cases h with
  | gap => cases hkind
  | token hprintable =>
    cases hkind
    exact ⟨hprintable, Or.inl rfl⟩
  | @unclosed s hs =>
    cases hkind
    refine ⟨?_, Or.inr ⟨s, rfl, rfl⟩⟩
    simpa [TokenKind.isPrintable] using hs

lemma Valid.eq_gap {p : Piece} (h : Valid p) (hkind : p.kind? = none) :
    ∃ c, p = ⟨[c], none⟩ ∧ Insignificant c := by
  cases h with
  | gap hc => exact ⟨_, rfl, hc⟩
  | token => cases hkind
  | unclosed => cases hkind

lemma isWord_keyword_spelling (k : Keyword) : Word.isWord k.spelling.toList = true := by
  rcases k with p | c | r
  · cases p <;> decide
  · cases c <;> decide
  · cases r <;> decide

lemma Valid.text_ne_nil {p : Piece} (h : Valid p) : p.text ≠ [] := by
  cases h with
  | gap => simp
  | unclosed => simp
  | @token kind hkind =>
    intro hnil
    cases kind with
    | keyword k =>
      have hword := isWord_keyword_spelling k
      rw [show k.spelling.toList = [] from hnil] at hword
      simp [Word.isWord_nil] at hword
    | ident s =>
      simp only [TokenKind.isPrintable, show s.toList = [] from hnil, Word.isWord_nil] at hkind
      simp at hkind
    | number s =>
      simp only [TokenKind.isPrintable, show s.toList = [] from hnil] at hkind
      simp [Numeral.isNumeral] at hkind
    | string s => simp [TokenKind.write] at hnil
    | operator o => cases o <;> cases hnil
    | delimiter d => cases d <;> cases hnil
    | newline => cases hnil
    | eof => simp [TokenKind.isPrintable] at hkind

lemma all_ne_quote {body : List Char} (h : '\"' ∉ body) : body.all (· ≠ '\"') = true := by
  rw [List.all_eq_true]
  intro c hc
  have hne : c ≠ '\"' := fun heq => h (heq ▸ hc)
  simpa using hne

/-- A string ends at its first quote. -/
lemma ofQuote_closed {body : List Char} (h : '\"' ∉ body) (rest : List Char) :
    ofQuote (body ++ '\"' :: rest) =
      (⟨'\"' :: body ++ ['\"'], some (.string (String.ofList body))⟩, rest) := by
  obtain ⟨htake, hdrop⟩ :=
    takeWhile_append_of_run body ('\"' :: rest) (all_ne_quote h) (by simp)
  simp only [ofQuote, htake, hdrop]

/-- A string without a second quote runs to the end. -/
lemma ofQuote_unclosed {body : List Char} (h : '\"' ∉ body) :
    ofQuote body = (⟨'\"' :: body, some (.string (String.ofList body))⟩, []) := by
  obtain ⟨htake, hdrop⟩ := takeWhile_append_of_run body [] (all_ne_quote h) rfl
  rw [List.append_nil] at htake hdrop
  simp only [ofQuote, htake, hdrop]

lemma ofDigit_spec {c : Char} (hc : c.isDigit = true) (cs : List Char) :
    Valid (ofDigit c cs).1 ∧ (ofDigit c cs).1.goesOn (ofDigit c cs).2 = false := by
  obtain ⟨htail, hrest⟩ := Numeral.split_spec c cs
  have hnumeral := (Numeral.isNumeral_cons_iff _ _).mpr ⟨hc, htail⟩
  simp only [ofDigit]
  refine ⟨Valid.of_eq ?_ ?_, hrest⟩
  · simp [TokenKind.write, TokenKind.lexeme?]
  · simp only [TokenKind.isPrintable, String.toList_ofList, hnumeral]

lemma ofWord_spec {c : Char} (hc : Word.starts c = true) (cs : List Char) :
    Valid (ofWord c cs).1 ∧ (ofWord c cs).1.goesOn (ofWord c cs).2 = false := by
  obtain ⟨htail, hrest⟩ := Word.split_spec cs
  have hword := (Word.isWord_cons_iff _ _).mpr ⟨hc, htail⟩
  simp only [ofWord]
  cases hk : Keyword.ofSpelling? (String.ofList (c :: (Word.split cs).1)) with
  | some k =>
    have hspelling := Keyword.spelling_eq_of_ofSpelling? hk
    refine ⟨Valid.of_eq ?_ rfl, hrest⟩
    simp [TokenKind.write, TokenKind.lexeme?, hspelling]
  | none =>
    refine ⟨Valid.of_eq ?_ ?_, hrest⟩
    · simp [TokenKind.write, TokenKind.lexeme?]
    · simp only [TokenKind.isPrintable, String.toList_ofList, hword, hk, Option.isNone_none,
        Bool.and_self]

lemma ofQuote_spec (cs : List Char) :
    Valid (ofQuote cs).1 ∧ (ofQuote cs).1.goesOn (ofQuote cs).2 = false := by
  by_cases h : '\"' ∈ cs
  · obtain ⟨body, rest, rfl, hbody⟩ := List.eq_append_cons_of_mem h
    rw [ofQuote_closed hbody]
    refine ⟨Valid.of_eq ?_ ?_, ?_⟩
    · simp [TokenKind.write]
    · simpa [TokenKind.isPrintable] using hbody
    · simp [goesOn]
  · rw [ofQuote_unclosed h]
    refine ⟨?_, by simp [goesOn]⟩
    have hvalid := Valid.unclosed (s := String.ofList cs) (by simpa using h)
    simpa using hvalid

/-- No operator has three characters. -/
lemma extend?_eq_none_of_extend? {o p : Operator} {c : Char} (h : o.extend? c = some p)
    (d : Char) : p.extend? d = none := by
  have hchars := Operator.chars_of_extend? h
  rw [Option.eq_none_iff_forall_ne_some]
  intro q hq
  have hlong := congrArg List.length (Operator.chars_of_extend? hq)
  rw [hchars] at hlong
  cases q <;> cases o <;> simp [Operator.chars] at hlong

lemma ofOperator_spec {o : Operator} {c : Char} (ho : o.chars = [c]) (cs : List Char) :
    Valid (ofOperator o c cs).1 ∧ (ofOperator o c cs).1.goesOn (ofOperator o c cs).2 = false := by
  have hone : Valid ⟨[c], some (.operator o)⟩ :=
    Valid.of_eq (by simp [TokenKind.write, TokenKind.lexeme?, Operator.spelling, ho]) rfl
  cases cs with
  | nil => exact ⟨hone, rfl⟩
  | cons d rest =>
    rw [ofOperator]
    cases hp : o.extend? d with
    | none => exact ⟨hone, by simp [goesOn, hp]⟩
    | some p =>
      have hchars := Operator.chars_of_extend? hp
      refine ⟨Valid.of_eq ?_ rfl, ?_⟩
      · simp [TokenKind.write, TokenKind.lexeme?, Operator.spelling, hchars, ho]
      · cases rest with
        | nil => rfl
        | cons e rest => simp [goesOn, extend?_eq_none_of_extend? hp]

lemma insignificant_of_ofChar?_eq_none {c : Char} (hline : c ≠ '\n') (hquote : c ≠ '\"')
    (hdigit : c.isDigit = false) (hstarts : Word.starts c = false)
    (ho : Operator.ofChar? c = none) (hd : Delimiter.ofChar? c = none) : Insignificant c := by
  simp only [Word.starts, Bool.or_eq_false_iff, decide_eq_false_iff_not] at hstarts
  refine Or.inr ⟨hline, hquote, hstarts.1, hdigit, hstarts.2, ?_, ?_⟩
  · intro o hmem
    cases o <;>
      simp only [Operator.chars, List.mem_cons, List.not_mem_nil, or_false, or_self] at hmem <;>
      first
      | (subst hmem; simp [Operator.ofChar?] at ho)
      | (rcases hmem with rfl | rfl <;> simp [Operator.ofChar?] at ho)
  · rintro d rfl
    simp at hd

/-- The first piece is one of the grammar, and the text behind it does not make it longer. -/
theorem first_spec (c : Char) (cs : List Char) :
    Valid (first c cs).1 ∧ (first c cs).1.goesOn (first c cs).2 = false := by
  by_cases hline : c = '\n'
  · subst hline
    exact ⟨Valid.of_eq rfl rfl, rfl⟩
  by_cases hblank : Text.isBlank c = true
  · have hgap : Insignificant c := Or.inl ⟨hblank, hline⟩
    rw [first_gap hgap]
    exact ⟨Valid.gap hgap, rfl⟩
  by_cases hquote : c = '\"'
  · subst hquote
    rw [first_quote]
    exact ofQuote_spec cs
  by_cases hdigit : c.isDigit = true
  · rw [first_digit hdigit]
    exact ofDigit_spec hdigit cs
  by_cases hstarts : Word.starts c = true
  · rw [first_word hstarts]
    exact ofWord_spec hstarts cs
  cases ho : Operator.ofChar? c with
  | some o =>
    have hchars := Operator.chars_of_ofChar? ho
    rw [first_operator hchars]
    exact ofOperator_spec hchars cs
  | none =>
    cases hd : Delimiter.ofChar? c with
    | some d =>
      obtain rfl := Delimiter.char_eq_of_ofChar? hd
      rw [first_delimiter]
      refine ⟨Valid.of_eq ?_ rfl, rfl⟩
      simp [TokenKind.write, TokenKind.lexeme?, Delimiter.spelling]
    | none =>
      have hgap := insignificant_of_ofChar?_eq_none hline hquote (by simpa using hdigit)
        (by simpa using hstarts) ho hd
      rw [first_gap hgap]
      exact ⟨Valid.gap hgap, rfl⟩

/-- A word is taken whole when the text behind it does not make it longer. -/
lemma ofWord_of_split {c : Char} {cs more rest : List Char}
    (h : Word.split cs = (more, rest)) :
    ofWord c cs = (⟨c :: more, some (.ofWord (String.ofList (c :: more)))⟩, rest) := by
  simp only [ofWord, h, TokenKind.ofWord]
  cases Keyword.ofSpelling? (String.ofList (c :: more)) <;> rfl

lemma first_of_isWord {c : Char} {more rest : List Char}
    (hword : Word.isWord (c :: more) = true) (hrest : Word.goesOn rest = false) :
    first c (more ++ rest) = (⟨c :: more, (ofWord c more).1.kind?⟩, rest) := by
  obtain ⟨hc, htail⟩ := (Word.isWord_cons_iff _ _).mp hword
  have hmore := Word.split_append_of_tail htail Word.goesOn_nil
  rw [List.append_nil] at hmore
  rw [first_word hc]
  simp only [ofWord, Word.split_append_of_tail htail hrest, hmore]

lemma kind?_ofWord {c : Char} {more : List Char} (hword : Word.isWord (c :: more) = true)
    {s : String} (hs : s.toList = c :: more) :
    (ofWord c more).1.kind? = some (.ofWord s) := by
  obtain ⟨hc, htail⟩ := (Word.isWord_cons_iff _ _).mp hword
  have hmore := Word.split_append_of_tail htail Word.goesOn_nil
  rw [List.append_nil] at hmore
  rw [ofWord_of_split hmore, ← hs, String.ofList_toList]

/-- An operator is taken whole when the next character does not make it longer. -/
lemma first_of_operator {o : Operator} {c : Char} {more rest : List Char}
    (ho : o.chars = c :: more) (hrest : rest.head?.any (fun d => (o.extend? d).isSome) = false) :
    first c (more ++ rest) = (⟨o.chars, some (.operator o)⟩, rest) := by
  cases more with
  | nil =>
    rw [first_operator ho, List.nil_append]
    cases rest with
    | nil => rw [ho]; rfl
    | cons d rest =>
      have hd : o.extend? d = none := by simpa using hrest
      simp only [ofOperator, hd, ho]
  | cons d more =>
    have hshort : more = [] ∧ ∃ p, Operator.ofChar? c = some p := by
      cases o <;> cases ho <;> exact ⟨rfl, _, rfl⟩
    obtain ⟨rfl, p, hp⟩ := hshort
    have hchars := Operator.chars_of_ofChar? hp
    have hextend : p.extend? d = some o := by
      rw [Operator.extend?, hchars, List.singleton_append, ← ho, Operator.ofChars?_chars]
    rw [first_operator hchars, List.singleton_append, ofOperator]
    simp only [hextend, ho]

/-- A piece of the grammar is cut off whole when the text behind it does not make it longer. -/
theorem first_of_valid {p : Piece} {c : Char} {more rest : List Char} (h : Valid p)
    (htext : p.text = c :: more) (hrest : p.goesOn rest = false) :
    first c (more ++ rest) = (p, rest) := by
  cases h with
  | gap hgap =>
    obtain ⟨rfl, rfl⟩ := List.cons.inj htext
    exact first_gap hgap rest
  | unclosed hs =>
    rename_i s
    obtain ⟨rfl, rfl⟩ := List.cons.inj htext
    have hnil : rest = [] := by simpa [goesOn] using hrest
    rw [hnil, List.append_nil, first_quote, ofQuote_unclosed hs, String.ofList_toList]
  | @token kind hkind =>
    cases kind with
    | keyword k =>
      have hspelling : k.spelling.toList = c :: more := htext
      have hword := isWord_keyword_spelling k
      rw [hspelling] at hword
      rw [first_of_isWord hword hrest, kind?_ofWord hword hspelling,
        TokenKind.ofWord, Keyword.ofSpelling?_spelling, ← hspelling]
      rfl
    | ident s =>
      have hs : s.toList = c :: more := htext
      simp only [TokenKind.isPrintable, Bool.and_eq_true, Option.isNone_iff_eq_none, hs] at hkind
      rw [first_of_isWord hkind.1 hrest, kind?_ofWord hkind.1 hs, TokenKind.ofWord, hkind.2,
        ← hs]
      rfl
    | number s =>
      have hs : s.toList = c :: more := htext
      simp only [TokenKind.isPrintable, hs] at hkind
      obtain ⟨hc, htail⟩ := (Numeral.isNumeral_cons_iff _ _).mp hkind
      have hrest : Numeral.goesOn (c :: more) rest = false := by rw [← hs]; exact hrest
      rw [first_digit hc]
      simp only [ofDigit, Numeral.split_append_of_tail hc htail hrest, ← hs, String.ofList_toList]
      rfl
    | string s =>
      have hs : '\"' :: (s.toList ++ ['\"']) = c :: more := htext
      obtain ⟨rfl, rfl⟩ := List.cons.inj hs
      have hquote : '\"' ∉ s.toList := by simpa [TokenKind.isPrintable] using hkind
      rw [first_quote, List.append_assoc, List.singleton_append, ofQuote_closed hquote,
        String.ofList_toList]
      rfl
    | operator o =>
      have ho : o.chars = c :: more := by
        simpa [TokenKind.write, TokenKind.lexeme?, Operator.spelling] using htext
      rw [first_of_operator ho hrest]
      simp [TokenKind.write, TokenKind.lexeme?, Operator.spelling]
    | delimiter d =>
      have hd : [d.char] = c :: more := by
        simpa [TokenKind.write, TokenKind.lexeme?, Delimiter.spelling] using htext
      obtain ⟨rfl, rfl⟩ := List.cons.inj hd
      rw [List.nil_append, first_delimiter]
      simp [TokenKind.write, TokenKind.lexeme?, Delimiter.spelling]
    | newline =>
      obtain ⟨rfl, rfl⟩ := List.cons.inj (show ['\n'] = c :: more from htext)
      rfl
    | eof => simp [TokenKind.isPrintable] at hkind

/-- The first piece is determined by the grammar and by what makes a piece longer. -/
theorem first_eq_iff (c : Char) (cs : List Char) (p : Piece) (rest : List Char) :
    first c cs = (p, rest) ↔
      Valid p ∧ p.goesOn rest = false ∧ p.text ++ rest = c :: cs := by
  constructor
  · intro h
    have hspec := first_spec c cs
    have happend := first_append c cs
    rw [h] at hspec happend
    exact ⟨hspec.1, hspec.2, happend⟩
  · rintro ⟨hvalid, hrest, htext⟩
    obtain ⟨d, more, hp⟩ := List.exists_cons_of_ne_nil hvalid.text_ne_nil
    rw [hp, List.cons_append] at htext
    obtain ⟨rfl, rfl⟩ := List.cons.inj htext
    exact first_of_valid hvalid hp hrest

/-- Valid pieces in a row, none of which is made longer by the text behind it. -/
inductive Cut : List Piece → Prop
  | nil : Cut []
  | cons {p : Piece} {ps : List Piece} : Valid p → p.goesOn (ps.flatMap text) = false →
      Cut ps → Cut (p :: ps)

lemma Cut.valid_of_mem {ps : List Piece} (h : Cut ps) : ∀ p ∈ ps, Valid p := by
  induction h with
  | nil => simp
  | cons hvalid _ _ ih => exact List.forall_mem_cons.mpr ⟨hvalid, ih⟩

/-- The pieces of a text are the only ones that can be cut in this way. -/
theorem split_eq_iff (cs : List Char) (ps : List Piece) :
    split cs = ps ↔ Cut ps ∧ ps.flatMap text = cs := by
  constructor
  · rintro rfl
    refine ⟨?_, flatMap_text_split cs⟩
    fun_induction split cs with
    | case1 => exact Cut.nil
    | case2 c cs ih =>
      obtain ⟨hvalid, hrest, -⟩ := (first_eq_iff c cs _ _).mp rfl
      refine Cut.cons hvalid ?_ ih
      rw [flatMap_text_split]
      exact hrest
  · rintro ⟨hcut, rfl⟩
    induction hcut with
    | nil => simp
    | @cons p ps hvalid hrest _ ih =>
      obtain ⟨c, more, hp⟩ := List.exists_cons_of_ne_nil hvalid.text_ne_nil
      have htext : p.text ++ ps.flatMap text = c :: (more ++ ps.flatMap text) := by
        rw [hp, List.cons_append]
      have hfirst := (first_eq_iff c _ p _).mpr ⟨hvalid, hrest, htext⟩
      rw [List.flatMap_cons, htext, split_cons, hfirst, ih]

/-- A text cut off earlier makes no piece longer that the whole text does not. -/
lemma goesOn_of_append {p : Piece} {cs ds : List Char} (h : p.goesOn (cs ++ ds) = false) :
    p.goesOn cs = false := by
  unfold goesOn at h ⊢
  split at h
  · exact Word.goesOn_of_append h
  · exact Word.goesOn_of_append h
  · exact Numeral.goesOn_of_append h
  · cases cs with
    | nil => rfl
    | cons c cs => simpa using h
  · cases cs with
    | nil => simp
    | cons c cs => simpa using h
  · rfl

/-- Pieces can be cut off at any place between two of them. -/
theorem Cut.of_append {ps qs : List Piece} (h : Cut (ps ++ qs)) : Cut ps ∧ Cut qs := by
  induction ps with
  | nil => exact ⟨Cut.nil, h⟩
  | cons p ps ih =>
    rw [List.cons_append] at h
    cases h with
    | cons hvalid hrest htail =>
    obtain ⟨hps, hqs⟩ := ih htail
    rw [List.flatMap_append] at hrest
    exact ⟨Cut.cons hvalid (goesOn_of_append hrest) hps, hqs⟩

/-- Pieces that follow each other in a text are the pieces of the text below them. -/
theorem split_between {cs : List Char} {before between after : List Piece}
    (h : split cs = before ++ between ++ after) :
    split (between.flatMap text) = between := by
  have hcut := ((split_eq_iff _ _).mp h).1.of_append.1.of_append.2
  exact (split_eq_iff _ _).mpr ⟨hcut, rfl⟩

end Piece

end Scaffold
