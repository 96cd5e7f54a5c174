import Scaffold.Declaration.Printer
import Scaffold.Proofs.Lookahead
import Scaffold.Proofs.LosslessLexing
import Scaffold.Skeleton.Render

/-!
# What a source can declare

Whatever a source holds, the declarations read from it are well formed. The texts
of tokens come from the grammar of pieces, and reading only passes them on: a type
comes from a declarable keyword, a name from an identifier or a reserved name, and a
value from a single token. So every type of a program that was read is a primitive
one, and no skeleton falls back on the spelling for other names.
-/
namespace Scaffold

namespace TokenKind

lemma isDeclarableType_of_declarable? {kind : TokenKind} {p : Primitive}
    (h : kind.declarable? = some p) : isDeclarableType p.spelling = true := by
  unfold declarable? at h
  split at h
  · split at h
    · rename_i hdeclarable
      cases h
      simp [isDeclarableType, hdeclarable]
    · cases h
  · cases h

lemma isName_of_name? {kind : TokenKind} {name : String} (hkind : kind.isPrintable = true)
    (h : kind.name? = some name) : isName name = true := by
  cases kind with
  | ident s =>
    cases h
    simp only [isPrintable, Bool.and_eq_true, Option.isNone_iff_eq_none] at hkind
    simp only [isName, hkind.2, hkind.1]
  | keyword k =>
    cases k with
    | reserved r =>
      cases h
      have hkeyword : Keyword.ofSpelling? r.spelling = some (.reserved r) :=
        Keyword.ofSpelling?_spelling (.reserved r)
      simp only [isName, hkeyword, Keyword.isReservedName]
    | type p => cases h
    | control c => cases h
  | _ => cases h

/-- A token has no quote in its text, and a string none between its own two. -/
lemma isValue_of_lexeme? {kind : TokenKind} {value : String} (hkind : kind.isPrintable = true)
    (h : kind.lexeme? = some value) : isValue value = true := by
  by_cases hstring : ∃ s, kind = .string s
  · obtain ⟨s, rfl⟩ := hstring
    cases h
    exact hkind
  · have hquote := Piece.quote_not_mem_write hkind fun s hs => hstring ⟨s, hs⟩
    have hwrite : kind.write = value.toList := by
      cases kind with
      | string s => exact absurd ⟨s, rfl⟩ hstring
      | _ => simp only [write, h, Option.getD_some]
    rw [hwrite] at hquote
    simpa [isValue] using hquote

lemma isValue_lexeme?_getD {kind : TokenKind} (hkind : kind.isPrintable = true) :
    isValue (kind.lexeme?.getD "") = true := by
  cases h : kind.lexeme? with
  | none => rfl
  | some value => exact isValue_of_lexeme? hkind h

/-- A type and a name behind it, as functions, variables and parameters begin with. -/
lemma declares_isWellFormed {kind named : TokenKind} {p : Primitive} {name : String}
    (ht : kind.declarable? = some p) (hkind : named.isPrintable = true)
    (hnamed : named.name? = some name) :
    (isDeclarableType p.spelling && isName name) = true := by
  rw [isDeclarableType_of_declarable? ht, isName_of_name? hkind hnamed]
  rfl

end TokenKind

/-- Parameters are well formed wherever the tokens of the list come from a source. -/
lemma Param.all_isWellFormed_ofTokens {ts : List Token}
    (h : ∀ t ∈ ts, t.kind.isPrintable = true) : (ofTokens ts).all isWellFormed = true := by
  fun_induction ofTokens ts with
  | case1 t n ts p name hn ht ih =>
    have hparam := TokenKind.declares_isWellFormed ht (h n (by simp)) hn
    have hrest := ih fun u hu => h u (by simp [hu])
    simp only [List.all_cons, isWellFormed, hparam, hrest, Bool.and_self]
  | case2 t n ts hne ih => exact ih fun u hu => h u (List.mem_cons_of_mem t hu)
  | case3 => rfl

/-- A segment of tokens that can be written holds a declaration that can. -/
lemma Segment.Fits.isWellFormed {s : Segment} {rest : List Token} {d : Declaration}
    (h : Fits s rest) (hkinds : ∀ t ∈ s.tokens, t.kind.isPrintable = true)
    (hnode : s.node? = some d) : d.isWellFormed = true := by
  cases h with
  | other => cases hnode
  | directive => cases hnode
  | bareType => cases hnode
  | @inclusion t word opening library closing =>
    cases hnode
    exact TokenKind.isValue_lexeme?_getD (hkinds library (by simp [tokens]))
  | @plain t named p name _ ht hnamed =>
    cases hnode
    have htyped := TokenKind.declares_isWellFormed ht (hkinds named (by simp [tokens])) hnamed
    simp only [Declaration.isWellFormed, htyped, Option.all_none, Bool.and_self]
  | @dangling t named equals p name _ ht hnamed =>
    cases hnode
    have htyped := TokenKind.declares_isWellFormed ht (hkinds named (by simp [tokens])) hnamed
    simp only [Declaration.isWellFormed, htyped, Option.all_none, Bool.and_self]
  | @initialized t named equals value p name _ ht hnamed =>
    cases hnode
    have htyped := TokenKind.declares_isWellFormed ht (hkinds named (by simp [tokens])) hnamed
    have hvalue : value.kind.lexeme?.all isValue = true := by
      rw [Option.all_eq_true]
      intro text htext
      exact TokenKind.isValue_of_lexeme? (hkinds value (by simp [tokens])) htext
    simp only [Declaration.isWellFormed, htyped, hvalue, Bool.and_self]
  | @closed t named opening closing inside p name _ ht hnamed =>
    cases hnode
    have htyped := TokenKind.declares_isWellFormed ht (hkinds named (by simp [tokens])) hnamed
    have hparams := Param.all_isWellFormed_ofTokens
      fun u (hu : u ∈ inside) => hkinds u (by simp [tokens, hu])
    simp only [Declaration.isWellFormed, htyped, hparams, Bool.and_self]
  | @unclosed t named opening inside p name _ ht hnamed =>
    cases hnode
    have htyped := TokenKind.declares_isWellFormed ht (hkinds named (by simp [tokens])) hnamed
    have hparams := Param.all_isWellFormed_ofTokens
      fun u (hu : u ∈ inside) => hkinds u (by simp [tokens, hu])
    simp only [Declaration.isWellFormed, htyped, hparams, Bool.and_self]

/-- Tokens that can be written, with end tokens in any places, are read as declarations that
can be written. -/
theorem isWellFormed_of_mem_nodes_parse {ts : List Token}
    (hkinds : ∀ t ∈ ts, t.kind ≠ .eof → t.kind.isPrintable = true) :
    ∀ d ∈ (parse ts).nodes, d.isWellFormed = true := by
  induction ts using Segment.splitInduction with
  | nil => simp [parse, Program.nodes]
  | eof t ts heof => simp [parse, Program.nodes, Segment.split_eof heof]
  | segment s rest hhead hfits ih =>
    intro d hd
    rw [nodes_parse_of_fits hhead hfits, List.mem_append] at hd
    rcases hd with hd | hd
    · refine hfits.isWellFormed (fun t ht => ?_) (Option.mem_toList.mp hd)
      exact hkinds t (List.mem_append_left _ ht) (hfits.tokens_ne_eof hhead t ht)
    · exact ih (fun t ht => hkinds t (List.mem_append_right _ ht)) d hd

/-- The types that a program names. -/
def Program.types (p : Program) : List String :=
  p.nodes.flatMap fun d => d.introduced.map Prod.fst

lemma Declaration.isDeclarableType_of_mem_introduced {d : Declaration}
    (hd : d.isWellFormed = true) : ∀ pair ∈ d.introduced, isDeclarableType pair.1 = true := by
  cases d with
  | inclusion i => simp [introduced]
  | var v =>
    simp only [isWellFormed, Bool.and_eq_true] at hd
    simpa [introduced] using hd.1.1
  | function f =>
    simp only [isWellFormed, Bool.and_eq_true, List.all_eq_true] at hd
    obtain ⟨⟨htype, -⟩, hparams⟩ := hd
    refine List.forall_mem_cons.mpr ⟨htype, ?_⟩
    simp only [List.forall_mem_map]
    intro p hp
    have hparam := hparams p hp
    rw [Param.isWellFormed, Bool.and_eq_true] at hparam
    exact hparam.1

namespace Target

/-- The spelling of names that are no primitive types. -/
def otherSpelling : Target → Spelling
  | java => Java.otherSpelling
  | python => Python.otherSpelling

lemma spellingOf_of_ofSpelling? {type : String} {p : Primitive}
    (h : Primitive.ofSpelling? type = some p) (t : Target) : t.spellingOf type = t.spelling p := by
  cases t with
  | java => simp [spellingOf, spelling, Java.spellingOf, h]
  | python => simp [spellingOf, spelling, Python.spellingOf, h]

lemma spelling_ne_otherSpelling (t : Target) (p : Primitive) : t.spelling p ≠ t.otherSpelling := by
  cases t <;> cases p <;> decide

end Target

/-- What holds of every program that was read from a source. -/
structure Program.WellFormed (p : Program) : Prop where
  nodes : ∀ d ∈ p.nodes, d.isWellFormed = true
  bodies : ∀ f ∈ p.functions, f.body = []
  /-- Each type is found in the vocabulary, and no target uses its spelling for other names. -/
  types : ∀ type ∈ p.types, ∃ q : Primitive, Primitive.ofSpelling? type = some q ∧
    ∀ t : Target, t.spellingOf type = t.spelling q ∧ t.spellingOf type ≠ t.otherSpelling

/-- The program of every source is well formed. -/
theorem wellFormed_parse_lex (source : String) : (parse (lex source)).WellFormed := by
  have hnodes : ∀ d ∈ (parse (lex source)).nodes, d.isWellFormed = true := by
    apply isWellFormed_of_mem_nodes_parse
    intro t ht hne
    exact Token.isPrintable_of_mem_lay (mem_lay_of_mem_lex ht hne)
  constructor
  case nodes => exact hnodes
  case bodies => exact fun f _ => f.body_eq_nil
  case types =>
    intro type htype
    obtain ⟨d, hd, hmem⟩ := List.mem_flatMap.mp htype
    obtain ⟨pair, hpair, rfl⟩ := List.mem_map.mp hmem
    have hdeclarable := Declaration.isDeclarableType_of_mem_introduced (hnodes d hd) pair hpair
    obtain ⟨q, hq, -⟩ := exists_primitive_of_isDeclarableType hdeclarable
    refine ⟨q, hq, fun t => ?_⟩
    rw [Target.spellingOf_of_ofSpelling? hq]
    exact ⟨rfl, t.spelling_ne_otherSpelling q⟩

end Scaffold
