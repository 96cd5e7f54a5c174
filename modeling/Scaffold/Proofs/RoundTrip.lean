import Scaffold.Declaration.Printer
import Scaffold.Proofs.SegmentGrammar
import Scaffold.Proofs.WrittenTokens

/-!
# Reading what was written

A written declaration spells a fixed list of token kinds, `Declaration.kinds`, in
front of any text. Tokens of these kinds are read as the declaration again, in front
of any tokens. So a whole list of declarations is read back from its text.
-/
namespace Scaffold

namespace TokenKind

/-- The kind of the token that holds a value. -/
def ofValue (value : String) : TokenKind :=
  if Word.isWord value.toList then ofWord value
  else if Numeral.isNumeral value.toList then .number value
  else .string value

lemma ofWord_ne_operator (s : String) (o : Operator) : ofWord s ≠ .operator o := by
  rcases ofWord_cases s with ⟨k, hk⟩ | hk <;> simp [hk]

lemma ofWord_isLayout (s : String) : (ofWord s).isLayout = false := by
  rcases ofWord_cases s with ⟨k, hk⟩ | hk <;> simp [hk, isLayout]

lemma ofValue_lexeme? (value : String) : (ofValue value).lexeme? = some value := by
  unfold ofValue
  split_ifs
  · exact ofWord_lexeme? value
  · rfl
  · rfl

lemma ofValue_isLayout (value : String) : (ofValue value).isLayout = false := by
  unfold ofValue
  split_ifs
  · exact ofWord_isLayout value
  · rfl
  · rfl

lemma ofValue_ne_operator (value : String) (o : Operator) : ofValue value ≠ .operator o := by
  unfold ofValue
  split_ifs
  · exact ofWord_ne_operator value o
  · simp
  · simp

lemma ofValue_write (value : String) : (ofValue value).write = writeValue value := by
  unfold ofValue writeValue
  by_cases hword : Word.isWord value.toList = true
  · simp only [hword, if_true, Bool.true_or, ofWord_write]
  by_cases hnumeral : Numeral.isNumeral value.toList = true
  · simp [hword, hnumeral, write, lexeme?]
  · simp [hword, hnumeral, write]

lemma ofValue_isPrintable {value : String} (h : isValue value = true) :
    (ofValue value).isPrintable = true := by
  unfold ofValue
  split_ifs with hword hnumeral
  · exact ofWord_isPrintable hword
  · exact hnumeral
  · exact h

/-- The type of a declaration is read as a declarable type. -/
lemma declarable?_ofWord {type : String} (h : isDeclarableType type = true) :
    ∃ p : Primitive, (ofWord type).declarable? = some p ∧ p.spelling = type := by
  obtain ⟨p, hp, hdeclarable⟩ := exists_primitive_of_isDeclarableType h
  have hspelling : p.spelling = type := by simpa using List.find?_some hp
  have hkind : ofWord type = .keyword (.type p) := by
    rw [← hspelling]
    exact ofWord_spelling (.type p)
  exact ⟨p, by simp [hkind, declarable?, hdeclarable], hspelling⟩

lemma name?_ofWord {name : String} (h : isName name = true) :
    (ofWord name).name? = some name := by
  unfold isName at h
  unfold ofWord
  cases hk : Keyword.ofSpelling? name with
  | none => rfl
  | some k =>
    rw [hk] at h
    cases k with
    | type p => cases h
    | control c => cases h
    | reserved r => exact congrArg some (Keyword.spelling_eq_of_ofSpelling? hk)

end TokenKind

lemma isWord_of_isDeclarableType {type : String} (h : isDeclarableType type = true) :
    Word.isWord type.toList = true := by
  obtain ⟨p, -, rfl⟩ := TokenKind.declarable?_ofWord h
  exact Piece.isWord_keyword_spelling (.type p)

lemma isWord_of_isName {name : String} (h : isName name = true) :
    Word.isWord name.toList = true := by
  unfold isName at h
  cases hk : Keyword.ofSpelling? name with
  | none => simpa [hk] using h
  | some k =>
    rw [← Keyword.spelling_eq_of_ofSpelling? hk]
    exact Piece.isWord_keyword_spelling k

/-- A value begins with no operator character, so it can follow any operator. -/
lemma head_writeValue (value : String) : ∃ c cs, writeValue value = c :: cs ∧
    (Word.continues c = true ∨ c = '\"') := by
  unfold writeValue
  by_cases hword : Word.isWord value.toList = true
  · cases hcs : value.toList with
    | nil => rw [hcs, Word.isWord_nil] at hword; cases hword
    | cons c cs =>
      rw [hcs] at hword
      have hc := Word.continues_of_starts ((Word.isWord_cons_iff c cs).mp hword).1
      exact ⟨c, cs, by simp [hword], Or.inl hc⟩
  by_cases hnumeral : Numeral.isNumeral value.toList = true
  · cases hcs : value.toList with
    | nil => simp [hcs, Numeral.isNumeral] at hnumeral
    | cons c cs =>
      rw [hcs] at hnumeral
      have hc := ((Numeral.isNumeral_cons_iff c cs).mp hnumeral).1
      exact ⟨c, cs, by simp [hnumeral], Or.inl (by simp [Piece.continues_eq, hc])⟩
  · exact ⟨'\"', value.toList ++ ['\"'], by simp [hword, hnumeral], Or.inr rfl⟩

/-- The second character of an operator is no part of words and no quote. -/
lemma extend?_eq_none {c : Char} (h : Word.continues c = true ∨ c = '\"') (o : Operator) :
    o.extend? c = none := by
  rw [Option.eq_none_iff_forall_ne_some]
  intro q hq
  have hmem : c ∈ q.chars := by simp [Operator.chars_of_extend? hq]
  have hchars : q.chars.all (fun d => !Word.continues d && d ≠ '\"') = true := by
    cases q <;> decide
  have hc := List.all_eq_true.mp hchars c hmem
  rcases h with h | h <;> simp [h] at hc

def Param.kinds (p : Param) : List TokenKind := [.ofWord p.type, .ofWord p.name]

/-- The kinds of the tokens that a written declaration consists of. -/
def Declaration.kinds : Declaration → List TokenKind
  | inclusion i => [.delimiter .hash, .keyword (.reserved .directive), .operator .lt,
      .ofValue i.library, .operator .gt, .newline]
  | function f => .ofWord f.returnType :: .ofWord f.name :: .delimiter .lparen ::
      [.delimiter .comma].intercalate (f.params.map Param.kinds) ++
        [.delimiter .rparen, .delimiter .semicolon, .newline]
  | var v => .ofWord v.type :: .ofWord v.name :: (match v.initializer? with
      | none => []
      | some value => [.operator .eq, .ofValue value]) ++ [.delimiter .semicolon, .newline]

namespace Declaration

lemma write_inclusion (i : Include) : (inclusion i).write =
    '#' :: (Keyword.spelling (.reserved .directive)).toList ++
      ' ' :: '<' :: writeValue i.library ++ ['>', '\n'] := rfl

lemma write_function (f : Function) : (function f).write =
    f.returnType.toList ++ ' ' :: f.name.toList ++
      '(' :: [',', ' '].intercalate (f.params.map Param.write) ++ [')', ';', '\n'] := rfl

lemma write_var (v : Variable) : (var v).write =
    v.type.toList ++ ' ' :: v.name.toList ++ (match v.initializer? with
      | none => []
      | some value => [' ', '=', ' '] ++ writeValue value) ++ [';', '\n'] := rfl

end Declaration

namespace Spells

variable {c : Char} {cs : List Char} {kinds : List TokenKind}

lemma word {s : String} (hs : Word.isWord s.toList = true) (hc : Word.continues c = false)
    (hdot : c ≠ '.') (h : Spells (c :: cs) kinds) :
    Spells (s.toList ++ c :: cs) (.ofWord s :: kinds) := by
  have htoken := separated (TokenKind.ofWord_isPrintable hs) (TokenKind.ofWord_ne_operator s)
    hc hdot h
  rwa [TokenKind.ofWord_write] at htoken

lemma value {s : String} (hs : isValue s = true) (hc : Word.continues c = false)
    (hdot : c ≠ '.') (h : Spells (c :: cs) kinds) :
    Spells (writeValue s ++ c :: cs) (.ofValue s :: kinds) := by
  have htoken := separated (TokenKind.ofValue_isPrintable hs) (TokenKind.ofValue_ne_operator s)
    hc hdot h
  rwa [TokenKind.ofValue_write] at htoken

lemma typed {type name : String} (htype : isDeclarableType type = true)
    (hname : isName name = true) (hc : Word.continues c = false) (hdot : c ≠ '.')
    (h : Spells (c :: cs) kinds) :
    Spells (type.toList ++ ' ' :: (name.toList ++ c :: cs))
      (.ofWord type :: .ofWord name :: kinds) :=
  word (isWord_of_isDeclarableType htype) (by decide) (by decide)
    (space (word (isWord_of_isName hname) hc hdot h))

lemma params {ps : List Param} (hps : ps.all Param.isWellFormed = true)
    (h : Spells (')' :: cs) kinds) :
    Spells ([',', ' '].intercalate (ps.map Param.write) ++ ')' :: cs)
      ([.delimiter .comma].intercalate (ps.map Param.kinds) ++ kinds) := by
  induction ps with
  | nil => exact h
  | cons p ps ih =>
    simp only [List.all_cons, Bool.and_eq_true, Param.isWellFormed] at hps
    obtain ⟨⟨htype, hname⟩, hrest⟩ := hps
    cases ps with
    | nil =>
      have hone := typed htype hname (by decide) (by decide) h
      simpa [Param.write, Param.kinds] using hone
    | cons q ps =>
      have hcomma := typed htype hname (by decide) (by decide)
        (delimiter .comma rfl (space (ih hrest)))
      simpa [Param.write, Param.kinds, Delimiter.char, List.intercalate_cons_cons] using hcomma

lemma lineEnd (h : Spells cs kinds) :
    Spells (';' :: '\n' :: cs) (.delimiter .semicolon :: .newline :: kinds) :=
  delimiter .semicolon rfl (newline h)

/-- A written declaration spells its kinds in front of any text. -/
theorem declaration {d : Declaration} (hd : d.isWellFormed = true) (h : Spells cs kinds) :
    Spells (d.write ++ cs) (d.kinds ++ kinds) := by
  cases d with
  | inclusion i =>
    obtain ⟨c, more, hvalue, hc⟩ := head_writeValue i.library
    have hclosing := operator .gt rfl (by decide) (newline h)
    have hlibrary := value hd (by decide) (by decide) hclosing
    rw [hvalue, List.cons_append] at hlibrary
    have hopening := space (operator .lt rfl (extend?_eq_none hc .lt) hlibrary)
    have hword := word (Piece.isWord_keyword_spelling (.reserved .directive)) (by decide)
      (by decide) hopening
    have hhash := delimiter .hash rfl hword
    simpa [Declaration.write_inclusion, Declaration.kinds, hvalue, Delimiter.char] using hhash
  | function f =>
    simp only [Declaration.isWellFormed, Bool.and_eq_true] at hd
    obtain ⟨⟨htype, hname⟩, hparams⟩ := hd
    have hinside := params hparams (delimiter .rparen rfl (lineEnd h))
    have htyped := typed htype hname (by decide) (by decide) (delimiter .lparen rfl hinside)
    simpa [Declaration.write_function, Declaration.kinds, Delimiter.char] using htyped
  | var v =>
    simp only [Declaration.isWellFormed, Bool.and_eq_true] at hd
    obtain ⟨⟨htype, hname⟩, hinit⟩ := hd
    cases hv : v.initializer? with
    | none =>
      have htyped := typed htype hname (by decide) (by decide) (lineEnd h)
      simpa [Declaration.write_var, Declaration.kinds, hv] using htyped
    | some s =>
      have hs : isValue s = true := by simpa [hv] using hinit
      have hvalue := value hs (by decide) (by decide) (lineEnd h)
      have hequals := operator .eq rfl (by decide) (space hvalue)
      have htyped := typed htype hname (by decide) (by decide) (space hequals)
      simpa [Declaration.write_var, Declaration.kinds, hv] using htyped

theorem declarations {ds : List Declaration} (h : ds.all Declaration.isWellFormed = true) :
    Spells (ds.flatMap Declaration.write) (ds.flatMap Declaration.kinds) := by
  induction ds with
  | nil => exact Spells.nil
  | cons d ds ih =>
    rw [List.all_cons, Bool.and_eq_true] at h
    rw [List.flatMap_cons, List.flatMap_cons]
    exact declaration h.1 (ih h.2)

end Spells

/-- Tokens that open nothing are passed over. -/
lemma nodes_parse_other {t : Token} (hhash : t.kind ≠ .delimiter .hash)
    (ht : t.kind.declarable? = none) (heof : t.kind ≠ .eof) (rest : List Token) :
    (parse (t :: rest)).nodes = (parse rest).nodes :=
  nodes_parse_of_fits (s := ⟨t, [], none⟩) heof (Segment.Fits.other hhash ht)

lemma nodes_parse_newline {t : Token} (h : t.kind = .newline) (rest : List Token) :
    (parse (t :: rest)).nodes = (parse rest).nodes :=
  nodes_parse_other (by simp [h]) (by simp [h]) (by simp [h]) rest

lemma nodes_parse_lineEnd {t line : Token} (ht : t.kind = .delimiter .semicolon)
    (hline : line.kind = .newline) (rest : List Token) :
    (parse (t :: line :: rest)).nodes = (parse rest).nodes := by
  rw [nodes_parse_other (by simp [ht]) (by simp [ht]) (by simp [ht]), nodes_parse_newline hline]

lemma kind_ne_eof_of_declarable? {t : Token} {p : Primitive} (h : t.kind.declarable? = some p) :
    t.kind ≠ .eof := by
  intro heof
  simp [heof] at h

namespace Param

lemma ofTokens_of_declares {t n : Token} {p : Param} (hp : p.isWellFormed = true)
    (ht : t.kind = .ofWord p.type) (hn : n.kind = .ofWord p.name) (ts : List Token) :
    ofTokens (t :: n :: ts) = p :: ofTokens ts := by
  simp only [isWellFormed, Bool.and_eq_true] at hp
  obtain ⟨q, hq, hspelling⟩ := TokenKind.declarable?_ofWord hp.1
  have hname := TokenKind.name?_ofWord hp.2
  simp only [ofTokens, ht, hn, hq, hname, hspelling]

lemma ofTokens_of_not_type {t : Token} (h : t.kind.declarable? = none) (ts : List Token) :
    ofTokens (t :: ts) = ofTokens ts := by
  cases ts with
  | nil => rfl
  | cons n ts => rw [ofTokens, h]

/-- Parameters with commas between them are read back. -/
lemma ofTokens_of_kinds {ps : List Param} (hps : ps.all isWellFormed = true) {ts : List Token}
    (hts : ts.map Token.kind = [.delimiter .comma].intercalate (ps.map kinds)) :
    ofTokens ts = ps := by
  induction ps generalizing ts with
  | nil =>
    rw [List.map_nil, List.intercalate_nil, List.map_eq_nil_iff] at hts
    rw [hts]
    rfl
  | cons p ps ih =>
    rw [List.all_cons, Bool.and_eq_true] at hps
    cases ps with
    | nil =>
      simp only [List.map_cons, List.map_nil, List.intercalate_singleton, kinds,
        List.map_eq_cons_iff, List.map_eq_nil_iff] at hts
      obtain ⟨t, _, rfl, ht, n, _, rfl, hn, rfl⟩ := hts
      rw [ofTokens_of_declares hps.1 ht hn]
      rfl
    | cons q ps =>
      rw [List.map_cons, List.map_cons, List.intercalate_cons_cons, ← List.map_cons] at hts
      simp only [kinds, List.cons_append, List.nil_append, List.map_eq_cons_iff] at hts
      obtain ⟨t, _, rfl, ht, n, _, rfl, hn, comma, ts, rfl, hcomma, hts⟩ := hts
      have hnone : comma.kind.declarable? = none := by simp [hcomma]
      rw [ofTokens_of_declares hps.1 ht hn, ofTokens_of_not_type hnone, ih hps.2 hts]

end Param

/-- A written parameter list holds neither a closing parenthesis nor an end token. -/
lemma ne_of_mem_paramKinds (ps : List Param) :
    ∀ k ∈ [TokenKind.delimiter .comma].intercalate (ps.map Param.kinds),
      k ≠ .delimiter .rparen ∧ k ≠ .eof := by
  have hword : ∀ s, TokenKind.ofWord s ≠ .delimiter .rparen ∧ TokenKind.ofWord s ≠ .eof := by
    intro s
    rcases TokenKind.ofWord_cases s with ⟨k, hk⟩ | hk <;> simp [hk]
  induction ps with
  | nil => simp
  | cons p ps ih =>
    cases ps with
    | nil => simpa [Param.kinds] using ⟨hword p.type, hword p.name⟩
    | cons q ps =>
      intro k hk
      rw [List.map_cons, List.map_cons, List.intercalate_cons_cons, ← List.map_cons] at hk
      simp only [Param.kinds, List.mem_append, List.mem_cons, List.not_mem_nil, or_false] at hk
      rcases hk with ((rfl | rfl) | rfl) | hk
      · exact hword p.type
      · exact hword p.name
      · simp
      · exact ih k hk

lemma all_inParams_of_kinds {ps : List Param} {ts : List Token}
    (hts : ts.map Token.kind = [.delimiter .comma].intercalate (ps.map Param.kinds)) :
    ts.all Segment.inParams = true := by
  rw [List.all_eq_true]
  intro t ht
  have hmem := List.mem_map_of_mem (f := Token.kind) ht
  rw [hts] at hmem
  simpa [Segment.inParams] using ne_of_mem_paramKinds ps t.kind hmem

section Reading

variable {ts : List Token}

lemma nodes_parse_inclusion {i : Include}
    (hts : ts.map Token.kind = (Declaration.inclusion i).kinds) (rest : List Token) :
    (parse (ts ++ rest)).nodes = .inclusion i :: (parse rest).nodes := by
  simp only [Declaration.kinds, List.map_eq_cons_iff, List.map_eq_nil_iff] at hts
  obtain ⟨t, _, rfl, ht, word, _, rfl, hword, opening, _, rfl, hopening, library, _, rfl,
    hlibrary, closing, _, rfl, hclosing, line, _, rfl, hline, rfl⟩ := hts
  have hlayout : library.kind.isLayout = false := by
    rw [hlibrary]
    exact TokenKind.ofValue_isLayout i.library
  have hfits : Segment.Fits ⟨t, [word, opening, library, closing],
      some (.inclusion ⟨library.kind.lexeme?.getD ""⟩)⟩ (line :: rest) :=
    Segment.Fits.inclusion ht hword hopening hlayout hclosing
  have hnodes := nodes_parse_of_fits (by simp [ht]) hfits
  rw [nodes_parse_newline hline, hlibrary, TokenKind.ofValue_lexeme?] at hnodes
  exact hnodes

lemma nodes_parse_function {f : Function} (hf : (Declaration.function f).isWellFormed = true)
    (hts : ts.map Token.kind = (Declaration.function f).kinds) (rest : List Token) :
    (parse (ts ++ rest)).nodes = .function f :: (parse rest).nodes := by
  obtain ⟨type, name, params, body⟩ := f
  obtain rfl := Function.body_eq_nil ⟨type, name, params, body⟩
  simp only [Declaration.isWellFormed, Bool.and_eq_true] at hf
  obtain ⟨⟨htype, hname⟩, hparams⟩ := hf
  obtain ⟨p, hp, rfl⟩ := TokenKind.declarable?_ofWord htype
  simp only [Declaration.kinds, List.cons_append, List.map_eq_cons_iff, List.map_eq_append_iff,
    List.map_eq_nil_iff] at hts
  obtain ⟨t, _, rfl, ht, named, _, rfl, hnamed, opening, _, rfl, hopening, inside, _, rfl,
    hinside, closing, _, rfl, hclosing, semicolon, _, rfl, hsemicolon, line, _, rfl, hline,
    rfl⟩ := hts
  rw [← ht] at hp
  have hn : named.kind.name? = some name := by rw [hnamed, TokenKind.name?_ofWord hname]
  have hfits : Segment.Fits ⟨t, named :: opening :: inside ++ [closing], some (.function
      { returnType := p.spelling, name, params := Param.ofTokens inside })⟩
      (semicolon :: line :: rest) :=
    Segment.Fits.closed hp hn hopening (all_inParams_of_kinds hinside) hclosing
  have hnodes := nodes_parse_of_fits (kind_ne_eof_of_declarable? hp) hfits
  rw [nodes_parse_lineEnd hsemicolon hline, Param.ofTokens_of_kinds hparams hinside] at hnodes
  simpa [Segment.tokens] using hnodes

lemma nodes_parse_var {v : Variable} (hv : (Declaration.var v).isWellFormed = true)
    (hts : ts.map Token.kind = (Declaration.var v).kinds) (rest : List Token) :
    (parse (ts ++ rest)).nodes = .var v :: (parse rest).nodes := by
  obtain ⟨type, name, initializer?⟩ := v
  simp only [Declaration.isWellFormed, Bool.and_eq_true] at hv
  obtain ⟨⟨htype, hname⟩, -⟩ := hv
  obtain ⟨p, hp, rfl⟩ := TokenKind.declarable?_ofWord htype
  cases initializer? with
  | none =>
    simp only [Declaration.kinds, List.cons_append, List.nil_append, List.map_eq_cons_iff,
      List.map_eq_nil_iff] at hts
    obtain ⟨t, _, rfl, ht, named, _, rfl, hnamed, semicolon, _, rfl, hsemicolon, line, _, rfl,
      hline, rfl⟩ := hts
    rw [← ht] at hp
    have hn : named.kind.name? = some name := by rw [hnamed, TokenKind.name?_ofWord hname]
    have hfits : Segment.Fits ⟨t, [named], some (.var ⟨p.spelling, name, none⟩)⟩
        (semicolon :: line :: rest) := Segment.Fits.plain hp hn (by simp [hsemicolon])
    have hnodes := nodes_parse_of_fits (kind_ne_eof_of_declarable? hp) hfits
    rw [nodes_parse_lineEnd hsemicolon hline] at hnodes
    exact hnodes
  | some value =>
    simp only [Declaration.kinds, List.cons_append, List.nil_append, List.map_eq_cons_iff,
      List.map_eq_nil_iff] at hts
    obtain ⟨t, _, rfl, ht, named, _, rfl, hnamed, equals, _, rfl, hequals, init, _, rfl, hinit,
      semicolon, _, rfl, hsemicolon, line, _, rfl, hline, rfl⟩ := hts
    rw [← ht] at hp
    have hn : named.kind.name? = some name := by rw [hnamed, TokenKind.name?_ofWord hname]
    have hlayout : init.kind.isLayout = false := by
      rw [hinit]
      exact TokenKind.ofValue_isLayout value
    have hfits : Segment.Fits ⟨t, [named, equals, init],
        some (.var ⟨p.spelling, name, init.kind.lexeme?⟩)⟩ (semicolon :: line :: rest) :=
      Segment.Fits.initialized hp hn hequals hlayout
    have hnodes := nodes_parse_of_fits (kind_ne_eof_of_declarable? hp) hfits
    rw [nodes_parse_lineEnd hsemicolon hline, hinit, TokenKind.ofValue_lexeme?] at hnodes
    exact hnodes

/-- Tokens of the kinds of a declaration are read as the declaration, in front of any tokens. -/
theorem nodes_parse_of_kinds {d : Declaration} (hd : d.isWellFormed = true)
    (hts : ts.map Token.kind = d.kinds) (rest : List Token) :
    (parse (ts ++ rest)).nodes = d :: (parse rest).nodes := by
  cases d with
  | inclusion i => exact nodes_parse_inclusion hts rest
  | function f => exact nodes_parse_function hd hts rest
  | var v => exact nodes_parse_var hd hts rest

/-- The kinds of written declarations, up to the end token, are read as the declarations. -/
theorem nodes_parse_of_all_kinds {ds : List Declaration}
    (hds : ds.all Declaration.isWellFormed = true)
    (hts : ts.map Token.kind = ds.flatMap Declaration.kinds ++ [.eof]) :
    (parse ts).nodes = ds := by
  induction ds generalizing ts with
  | nil =>
    simp only [List.flatMap_nil, List.nil_append, List.map_eq_cons_iff,
      List.map_eq_nil_iff] at hts
    obtain ⟨t, _, rfl, ht, rfl⟩ := hts
    rw [parse, Segment.split_eof ht]
    rfl
  | cons d ds ih =>
    rw [List.all_cons, Bool.and_eq_true] at hds
    rw [List.flatMap_cons, List.append_assoc] at hts
    obtain ⟨front, rest, rfl, hfront, hrest⟩ := List.map_eq_append_iff.mp hts
    rw [nodes_parse_of_kinds hds.1 hfront, ih hds.2 hrest]

end Reading

/-- Well-formed declarations are read back from their text, all of them and in their order. -/
theorem nodes_parse_lex_writeAll (ds : List Declaration)
    (h : ds.all Declaration.isWellFormed = true) :
    (parse (lex (Declaration.writeAll ds))).nodes = ds := by
  have hspells := Spells.declarations h
  have hkinds : (lex (Declaration.writeAll ds)).map Token.kind =
      ds.flatMap Declaration.kinds ++ [.eof] := by
    apply Spells.map_kind_lex
    rw [Declaration.writeAll, String.toList_ofList]
    exact hspells
  exact nodes_parse_of_all_kinds h hkinds

/-- Keywords as values and as names, words with dots, and a string over two lines. -/
theorem nodes_parse_lex_writeAll_mixed :
    (parse (lex ("#include <int>\n#include <\"\">\nvoid main(char a.b, int printf);\n" ++
        "double _x = 10.;\nint z;\nfloat y = \"= 1;\n\";\n"))).nodes =
      [.inclusion ⟨"int"⟩, .inclusion ⟨""⟩, .function
        { returnType := "void", name := "main", params := [⟨"char", "a.b"⟩, ⟨"int", "printf"⟩] },
        .var ⟨"double", "_x", some "10."⟩, .var ⟨"int", "z", none⟩,
        .var ⟨"float", "y", some "= 1;\n"⟩] := by
  refine Eq.trans ?_ (nodes_parse_lex_writeAll _ (by decide +kernel))
  congr 3

end Scaffold
