import Mathlib.Data.List.Forall2
import Scaffold.Declaration.Segment

/-!
# Segments against their grammar

`Segment.Fits` lists all segments that can be cut off in front of given tokens,
and what these tokens must not begin with. The first segment of a token list is
the only one that fits, so results about reading are proved by cases on `Fits` and
by the induction `Segment.splitInduction` over the segments of a list.
-/
namespace Scaffold

namespace TokenKind

@[simp] lemma declarable?_operator (o : Operator) : declarable? (.operator o) = none := rfl

@[simp] lemma declarable?_delimiter (d : Delimiter) : declarable? (.delimiter d) = none := rfl

@[simp] lemma declarable?_reserved (r : Reserved) : declarable? (.keyword (.reserved r)) = none :=
  rfl

@[simp] lemma declarable?_newline : declarable? .newline = none := rfl

@[simp] lemma declarable?_eof : declarable? .eof = none := rfl

@[simp] lemma name?_delimiter (d : Delimiter) : name? (.delimiter d) = none := rfl

lemma ne_eof_of_name? {k : TokenKind} {name : String} (h : k.name? = some name) : k ≠ .eof := by
  rintro rfl
  simp [name?] at h

lemma ne_eof_of_isLayout {k : TokenKind} (h : k.isLayout = false) : k ≠ .eof := by
  rintro rfl
  simp [isLayout] at h

end TokenKind

namespace Segment

/-- The segments that can be cut off in front of the rest of the tokens. -/
inductive Fits : Segment → List Token → Prop
  | other {t : Token} {rest : List Token} : t.kind ≠ .delimiter .hash →
      t.kind.declarable? = none → Fits ⟨t, [], none⟩ rest
  /-- The directive breaks off before its last token. -/
  | directive {t : Token} {used rest : List Token} : t.kind = .delimiter .hash →
      expect inclusionTests (used ++ rest) = (used, rest) → used.length < 4 →
      Fits ⟨t, used, none⟩ rest
  | inclusion {t word opening library closing : Token} {rest : List Token} :
      t.kind = .delimiter .hash → word.kind = .keyword (.reserved .directive) →
      opening.kind = .operator .lt → library.kind.isLayout = false →
      closing.kind = .operator .gt →
      Fits ⟨t, [word, opening, library, closing],
        some (.inclusion ⟨library.kind.lexeme?.getD ""⟩)⟩ rest
  | bareType {t : Token} {p : Primitive} {rest : List Token} :
      t.kind.declarable? = some p → (∀ u ∈ rest.head?, u.kind.name? = none) →
      Fits ⟨t, [], none⟩ rest
  | plain {t named : Token} {p : Primitive} {name : String} {rest : List Token} :
      t.kind.declarable? = some p → named.kind.name? = some name →
      (∀ u ∈ rest.head?, u.kind ≠ .delimiter .lparen ∧ u.kind ≠ .operator .eq) →
      Fits ⟨t, [named], some (.var ⟨p.spelling, name, none⟩)⟩ rest
  /-- The line ends behind the equals sign. -/
  | dangling {t named equals : Token} {p : Primitive} {name : String} {rest : List Token} :
      t.kind.declarable? = some p → named.kind.name? = some name →
      equals.kind = .operator .eq → (∀ u ∈ rest.head?, u.kind.isLayout = true) →
      Fits ⟨t, [named, equals], some (.var ⟨p.spelling, name, none⟩)⟩ rest
  | initialized {t named equals value : Token} {p : Primitive} {name : String}
      {rest : List Token} : t.kind.declarable? = some p → named.kind.name? = some name →
      equals.kind = .operator .eq → value.kind.isLayout = false →
      Fits ⟨t, [named, equals, value], some (.var ⟨p.spelling, name, value.kind.lexeme?⟩)⟩ rest
  | closed {t named opening closing : Token} {inside : List Token} {p : Primitive}
      {name : String} {rest : List Token} : t.kind.declarable? = some p →
      named.kind.name? = some name → opening.kind = .delimiter .lparen →
      inside.all inParams = true → closing.kind = .delimiter .rparen →
      Fits ⟨t, named :: opening :: inside ++ [closing], some (.function
        { returnType := p.spelling, name, params := Param.ofTokens inside })⟩ rest
  /-- The parameter list runs to the end of the tokens. -/
  | unclosed {t named opening : Token} {inside : List Token} {p : Primitive} {name : String}
      {rest : List Token} : t.kind.declarable? = some p → named.kind.name? = some name →
      opening.kind = .delimiter .lparen → inside.all inParams = true →
      (∀ u ∈ rest.head?, u.kind = .eof) →
      Fits ⟨t, named :: opening :: inside, some (.function
        { returnType := p.spelling, name, params := Param.ofTokens inside })⟩ rest

lemma expect_length_le (tests : List (TokenKind → Bool)) (ts : List Token) :
    (expect tests ts).1.length ≤ tests.length := by
  fun_induction expect tests ts with
  | case1 test tests t ts h ih => simpa using ih
  | case2 => simp
  | case3 => simp

/-- The tokens taken pass the tests at their places. -/
lemma expect_passed (tests : List (TokenKind → Bool)) (ts : List Token) :
    List.Forall₂ (fun test t => test t.kind = true)
      (tests.take (expect tests ts).1.length) (expect tests ts).1 := by
  fun_induction expect tests ts with
  | case1 test tests t ts h ih => exact List.Forall₂.cons h ih
  | case2 => exact List.Forall₂.nil
  | case3 => exact List.Forall₂.nil

/-- The token behind those taken fails its test. -/
lemma expect_stopped {tests : List (TokenKind → Bool)} {ts : List Token}
    {test : TokenKind → Bool} (h : test ∈ tests[(expect tests ts).1.length]?) :
    ∀ u ∈ (expect tests ts).2.head?, test u.kind = false := by
  fun_induction expect tests ts with
  | case1 first tests t ts hpass ih => exact ih (by simpa using h)
  | case2 first tests t ts hfail =>
    have htest : first = test := by simpa using h
    simpa [← htest] using hfail
  | case3 tests ts hshort =>
    cases tests with
    | nil => simp at h
    | cons first tests =>
      cases ts with
      | nil => simp
      | cons t ts => exact absurd rfl (hshort first tests t ts rfl)

lemma kind_ne_eof_of_inParams {t : Token} (h : inParams t = true) : t.kind ≠ .eof := by
  simp only [inParams, decide_eq_true_eq] at h
  exact h.2

lemma name?_of_not_inParams {t : Token} (h : inParams t = false) : t.kind.name? = none := by
  simp only [inParams, decide_eq_false_iff_not, not_and_or, not_not] at h
  rcases h with h | h
  · rw [h, TokenKind.name?_delimiter]
  · rw [h]
    rfl

lemma ofHash_fits {t : Token} (h : t.kind = .delimiter .hash) (ts : List Token) :
    Fits (ofHash t ts).1 (ofHash t ts).2 := by
  have happend := expect_append inclusionTests ts
  have hlength := expect_length_le inclusionTests ts
  have hpassed := expect_passed inclusionTests ts
  unfold ofHash
  split
  · rename_i word opening library closing rest he
    rw [he] at hpassed
    simp only [inclusionTests, List.length_cons, List.length_nil, List.take_succ_cons,
      List.forall₂_cons, decide_eq_true_eq] at hpassed
    obtain ⟨hword, hopening, hlibrary, hclosing, -⟩ := hpassed
    exact Fits.inclusion h hword hopening (by simpa using hlibrary) hclosing
  · rename_i used rest hne he
    rw [he] at happend hlength
    have hshort : used.length ≠ 4 := by
      intro hfour
      rcases used with _ | ⟨word, _ | ⟨opening, _ | ⟨library, _ | ⟨closing, _ | ⟨_, _⟩⟩⟩⟩⟩
      case cons.cons.cons.cons.nil => exact hne word opening library closing rfl
      all_goals simp at hfour
    have hmost : used.length ≤ 4 := hlength
    refine Fits.directive h ?_ (by omega)
    rw [show used ++ rest = ts from happend]
    exact he

lemma ofFunction_fits {t named opening : Token} {p : Primitive} {name : String}
    (ht : t.kind.declarable? = some p) (hnamed : named.kind.name? = some name)
    (hopening : opening.kind = .delimiter .lparen) (ts : List Token) :
    Fits (ofFunction p.spelling name t named opening ts).1
      (ofFunction p.spelling name t named opening ts).2 := by
  have hhead := List.head?_dropWhile_not inParams ts
  have hinside : (ts.takeWhile inParams).all inParams = true := List.all_takeWhile
  unfold ofFunction
  cases hdrop : ts.dropWhile inParams with
  | nil =>
    simp only [expect, List.append_nil]
    exact Fits.unclosed ht hnamed hopening hinside (by simp)
  | cons u rest =>
    rw [hdrop] at hhead
    by_cases hclosing : u.kind = .delimiter .rparen
    · simp only [expect, hclosing, decide_true, if_true]
      exact Fits.closed ht hnamed hopening hinside hclosing
    · have heof : u.kind = .eof := by simpa [inParams, hclosing] using hhead
      simp only [expect, hclosing, decide_false, Bool.false_eq_true, if_false, List.append_nil]
      exact Fits.unclosed ht hnamed hopening hinside (by simpa using heof)

lemma ofInitializer_fits {t named equals : Token} {p : Primitive} {name : String}
    (ht : t.kind.declarable? = some p) (hnamed : named.kind.name? = some name)
    (hequals : equals.kind = .operator .eq) (ts : List Token) :
    Fits (ofInitializer p.spelling name t named equals ts).1
      (ofInitializer p.spelling name t named equals ts).2 := by
  cases ts with
  | nil =>
    simp only [ofInitializer, expect]
    exact Fits.dangling ht hnamed hequals (by simp)
  | cons u ts =>
    by_cases hu : u.kind.isLayout = true
    · simp only [ofInitializer, expect, hu, Bool.not_true, Bool.false_eq_true, if_false]
      exact Fits.dangling ht hnamed hequals (by simpa using hu)
    · simp only [ofInitializer, expect, hu, Bool.not_false, if_true]
      exact Fits.initialized ht hnamed hequals (by simpa using hu)

lemma ofName_fits {t named : Token} {p : Primitive} {name : String}
    (ht : t.kind.declarable? = some p) (hnamed : named.kind.name? = some name) (ts : List Token) :
    Fits (ofName p.spelling name t named ts).1 (ofName p.spelling name t named ts).2 := by
  cases ts with
  | nil =>
    rw [ofName]
    exact Fits.plain ht hnamed (by simp)
  | cons u ts =>
    rw [ofName]
    split
    · rename_i hu
      exact ofFunction_fits ht hnamed hu ts
    split
    · rename_i hu
      exact ofInitializer_fits ht hnamed hu ts
    · rename_i hparen heq
      exact Fits.plain ht hnamed (by simpa using ⟨hparen, heq⟩)

/-- The first segment fits in front of the tokens that are left. -/
theorem first_fits (t : Token) (ts : List Token) : Fits (first t ts).1 (first t ts).2 := by
  unfold first
  split
  · rename_i h
    exact ofHash_fits h ts
  · rename_i h
    cases ht : t.kind.declarable? with
    | none => exact Fits.other h ht
    | some p =>
      cases ts with
      | nil =>
        simp only [ofType]
        exact Fits.bareType ht (by simp)
      | cons u ts =>
        simp only [ofType]
        cases hu : u.kind.name? with
        | none => exact Fits.bareType ht (by simpa using hu)
        | some name => exact ofName_fits ht hu ts

lemma first_head (t : Token) (ts : List Token) : (first t ts).1.head = t := by
  have happend := first_append t ts
  rw [tokens, List.cons_append] at happend
  exact (List.cons.inj happend).1

lemma first_of_declarable? {t : Token} {p : Primitive} (h : t.kind.declarable? = some p)
    (ts : List Token) : first t ts = ofType p.spelling t ts := by
  have hne : t.kind ≠ .delimiter .hash := by
    intro hhash
    simp [hhash, TokenKind.declarable?] at h
  simp only [first, if_neg hne, h]

lemma first_of_name? {t named : Token} {p : Primitive} {name : String}
    (ht : t.kind.declarable? = some p) (hnamed : named.kind.name? = some name) (ts : List Token) :
    first t (named :: ts) = ofName p.spelling name t named ts := by
  rw [first_of_declarable? ht]
  simp only [ofType, hnamed]

/-- A segment that fits is cut off. -/
theorem first_of_fits {s : Segment} {rest : List Token} (h : Fits s rest) :
    first s.head (s.tail ++ rest) = (s, rest) := by
  cases h with
  | other hhash ht => simp [first, hhash, ht]
  | @directive t used _ hhash hused hshort =>
    simp only [first, if_pos hhash, ofHash, hused]
    split
    · rename_i heq
      cases heq
      simp at hshort
    · rename_i heq
      cases heq
      rfl
  | inclusion hhash hword hopening hlibrary hclosing =>
    simp [first, hhash, ofHash, inclusionTests, expect, hword, hopening, hlibrary, hclosing]
  | bareType ht hrest =>
    rw [first_of_declarable? ht]
    cases rest with
    | nil => rfl
    | cons u rest =>
      have hu : u.kind.name? = none := by simpa using hrest
      simp [ofType, hu]
  | plain ht hnamed hrest =>
    rw [List.singleton_append, first_of_name? ht hnamed]
    cases rest with
    | nil => rfl
    | cons u rest =>
      have hu : u.kind ≠ .delimiter .lparen ∧ u.kind ≠ .operator .eq := by simpa using hrest
      simp [ofName, hu.1, hu.2]
  | dangling ht hnamed hequals hrest =>
    rw [List.cons_append, first_of_name? ht hnamed, List.singleton_append, ofName]
    cases rest with
    | nil => simp [hequals, ofInitializer, expect]
    | cons u rest =>
      have hu : u.kind.isLayout = true := by simpa using hrest
      simp [hequals, ofInitializer, expect, hu]
  | initialized ht hnamed hequals hvalue =>
    rw [List.cons_append, first_of_name? ht hnamed, List.cons_append, ofName]
    simp [hequals, ofInitializer, expect, hvalue]
  | @closed _ _ _ closing inside _ _ _ ht hnamed hopening hinside hclosing =>
    have hstop : inParams closing = false := by simp [inParams, hclosing]
    have hmem : ∀ u ∈ inside, inParams u = true := List.all_eq_true.mp hinside
    simp only [List.cons_append, List.append_assoc]
    rw [first_of_name? ht hnamed, ofName, if_pos hopening, ofFunction,
      List.takeWhile_append_of_pos hmem, List.dropWhile_append_of_pos hmem]
    simp [hstop, expect, hclosing]
  | @unclosed _ _ _ inside _ _ _ ht hnamed hopening hinside hrest =>
    have hmem : ∀ u ∈ inside, inParams u = true := List.all_eq_true.mp hinside
    rw [List.cons_append, List.cons_append, first_of_name? ht hnamed, ofName, if_pos hopening,
      ofFunction, List.takeWhile_append_of_pos hmem, List.dropWhile_append_of_pos hmem]
    cases rest with
    | nil => simp [expect]
    | cons u rest =>
      have hu : u.kind = .eof := by simpa using hrest
      have hstop : inParams u = false := by simp [inParams, hu]
      simp [hstop, expect, hu]

/-- Reading goes on behind a segment that fits. -/
theorem split_of_fits {s : Segment} {rest : List Token} (hhead : s.head.kind ≠ .eof)
    (h : Fits s rest) : split (s.tokens ++ rest) = s :: split rest := by
  rw [tokens, List.cons_append, split_cons hhead, first_of_fits h]

/-- Induction over the segments of a token list, up to its end or an end token. -/
theorem splitInduction {motive : List Token → Prop} (nil : motive [])
    (eof : ∀ t ts, t.kind = .eof → motive (t :: ts))
    (segment : ∀ s rest, s.head.kind ≠ .eof → Fits s rest → motive rest →
      motive (s.tokens ++ rest))
    (ts : List Token) : motive ts := by
  induction h : ts.length using Nat.strongRecOn generalizing ts with
  | ind n ih =>
    cases ts with
    | nil => exact nil
    | cons t ts =>
      by_cases heof : t.kind = .eof
      · exact eof t ts heof
      · have happend := first_append t ts
        have hlength := first_rest_length_le t ts
        rw [List.length_cons] at h
        rw [← happend]
        exact segment _ _ (by rwa [first_head]) (first_fits t ts)
          (ih _ (by omega) _ rfl)

/-- A segment is found again in the token list, in front of tokens it fits. -/
theorem exists_append_of_mem_split {ts : List Token} {s : Segment} (h : s ∈ split ts) :
    ∃ before after, ts = before ++ s.tokens ++ after ∧ s.head.kind ≠ .eof ∧ Fits s after := by
  induction ts using splitInduction with
  | nil => simp at h
  | eof t ts heof => simp [split_eof heof] at h
  | segment u rest hhead hfits ih =>
    rw [split_of_fits hhead hfits] at h
    rcases List.mem_cons.mp h with rfl | h
    · exact ⟨[], rest, rfl, hhead, hfits⟩
    · obtain ⟨before, after, rfl, hs⟩ := ih h
      exact ⟨u.tokens ++ before, after, by simp only [List.append_assoc], hs⟩

lemma Fits.tokens_ne_eof {s : Segment} {rest : List Token} (h : Fits s rest)
    (hhead : s.head.kind ≠ .eof) : ∀ t ∈ s.tokens, t.kind ≠ .eof := by
  have hfirst := first_tokens_ne_eof hhead (s.tail ++ rest)
  rw [first_of_fits h] at hfirst
  exact hfirst

/-- The segments of a list that is closed by an end token lie in front of this token. -/
lemma exists_append_of_mem_split_eof {ts : List Token} {e : Token} {s : Segment}
    (he : e.kind = .eof) (h : s ∈ split (ts ++ [e])) :
    ∃ before after, ts = before ++ s.tokens ++ after ∧ s.head.kind ≠ .eof ∧
      Fits s (after ++ [e]) := by
  obtain ⟨before, right, hts, hhead, hfits⟩ := exists_append_of_mem_split h
  rcases List.eq_nil_or_concat right with rfl | ⟨after, e', rfl⟩
  · obtain ⟨front, last, hlast⟩ :=
      List.eq_nil_or_concat s.tokens |>.resolve_left (by simp [tokens])
    rw [List.append_nil, hlast, List.concat_eq_append, ← List.append_assoc] at hts
    have heof := List.singleton_inj.mp (List.append_inj' hts rfl).2
    refine absurd ?_ (hfits.tokens_ne_eof hhead last (by simp [hlast]))
    rw [← heof, he]
  · rw [List.concat_eq_append, ← List.append_assoc] at hts
    obtain ⟨hbefore, hlast⟩ := List.append_inj' hts rfl
    obtain rfl := List.singleton_inj.mp hlast
    exact ⟨before, after, hbefore, hhead, by rwa [List.concat_eq_append] at hfits⟩

/-- A declaration needs no token behind its segment: the end token can follow it at once. -/
theorem Fits.before_eof {s : Segment} {rest : List Token} (h : Fits s rest)
    (hnode : s.node?.isSome = true) {e : Token} (he : e.kind = .eof) : Fits s [e] := by
  cases h with
  | other => simp at hnode
  | directive => simp at hnode
  | bareType => simp at hnode
  | inclusion hhash hword hopening hlibrary hclosing =>
    exact Fits.inclusion hhash hword hopening hlibrary hclosing
  | plain ht hnamed _ => exact Fits.plain ht hnamed (by simp [he])
  | dangling ht hnamed hequals _ =>
    exact Fits.dangling ht hnamed hequals (by simp [he, TokenKind.isLayout])
  | initialized ht hnamed hequals hvalue => exact Fits.initialized ht hnamed hequals hvalue
  | closed ht hnamed hopening hinside hclosing =>
    exact Fits.closed ht hnamed hopening hinside hclosing
  | unclosed ht hnamed hopening hinside _ =>
    exact Fits.unclosed ht hnamed hopening hinside (by simp [he])

/-- The segment with other tokens in the places of its own. -/
def map (f : Token → Token) (s : Segment) : Segment := ⟨f s.head, s.tail.map f, s.node?⟩

section Kinds

variable {f : Token → Token} (hf : ∀ t, (f t).kind = t.kind)
include hf

lemma expect_map (tests : List (TokenKind → Bool)) (ts : List Token) :
    expect tests (ts.map f) = ((expect tests ts).1.map f, (expect tests ts).2.map f) := by
  fun_induction expect tests ts with
  | case1 test tests t ts h ih =>
    rw [List.map_cons, expect, hf, if_pos h, ih]
    rfl
  | case2 test tests t ts h =>
    rw [List.map_cons, expect, hf, if_neg h]
    rfl
  | case3 tests ts hne =>
    cases tests with
    | nil => cases ts <;> rfl
    | cons test tests =>
      cases ts with
      | nil => rfl
      | cons t ts => exact absurd rfl (hne test tests t ts rfl)

lemma ofTokens_map (ts : List Token) : Param.ofTokens (ts.map f) = Param.ofTokens ts := by
  fun_induction Param.ofTokens ts with
  | case1 t n ts p name hn ht ih =>
    simp only [List.map_cons, Param.ofTokens, hf, ht, hn, ih]
  | case2 t n ts hne ih =>
    rw [List.map_cons] at ih
    rw [List.map_cons, List.map_cons, Param.ofTokens, hf, hf]
    split
    · rename_i p name ht hn
      exact absurd hn (hne p name ht)
    · exact ih
  | case3 ts hne =>
    match ts, hne with
    | [], _ => rfl
    | [t], _ => rfl
    | t :: n :: ts, hne => exact absurd rfl (hne t n ts)

lemma all_inParams_map (ts : List Token) : (ts.map f).all inParams = ts.all inParams := by
  rw [List.all_map]
  congr 1
  funext t
  simp only [Function.comp_apply, inParams, hf]

lemma head?_map_of_head? (P : TokenKind → Prop) {rest : List Token}
    (h : ∀ u ∈ rest.head?, P u.kind) : ∀ u ∈ (rest.map f).head?, P u.kind := by
  cases rest with
  | nil => simp
  | cons u rest =>
    have hu : P u.kind := by simpa using h
    simpa [hf] using hu

theorem Fits.map {s : Segment} {rest : List Token} (h : Fits s rest) :
    Fits (s.map f) (rest.map f) := by
  cases h with
  | other hhash ht => exact Fits.other (by rwa [hf]) (by rwa [hf])
  | directive hhash hused hshort =>
    refine Fits.directive (by rwa [hf]) ?_ (by simpa using hshort)
    rw [← List.map_append, expect_map hf, hused]
  | @inclusion t word opening library closing _ hhash hword hopening hlibrary hclosing =>
    rw [← hf library]
    exact Fits.inclusion (by rwa [hf]) (by rwa [hf]) (by rwa [hf]) (by rwa [hf]) (by rwa [hf])
  | bareType ht hrest =>
    exact Fits.bareType (by rwa [hf]) (head?_map_of_head? hf (·.name? = none) hrest)
  | plain ht hnamed hrest =>
    exact Fits.plain (by rwa [hf]) (by rwa [hf])
      (head?_map_of_head? hf (fun k => k ≠ .delimiter .lparen ∧ k ≠ .operator .eq) hrest)
  | dangling ht hnamed hequals hrest =>
    exact Fits.dangling (by rwa [hf]) (by rwa [hf]) (by rwa [hf])
      (head?_map_of_head? hf (·.isLayout = true) hrest)
  | @initialized t named equals value p name _ ht hnamed hequals hvalue =>
    rw [← hf value]
    exact Fits.initialized (by rwa [hf]) (by rwa [hf]) (by rwa [hf]) (by rwa [hf])
  | @closed t named opening closing inside p name _ ht hnamed hopening hinside hclosing =>
    have hmap : (inside.map f).all inParams = true := by rw [all_inParams_map hf, hinside]
    rw [← ofTokens_map hf inside, Segment.map, List.map_append, List.map_cons, List.map_cons]
    exact Fits.closed (by rwa [hf]) (by rwa [hf]) (by rwa [hf]) hmap (by rwa [hf])
  | @unclosed t named opening inside p name _ ht hnamed hopening hinside hrest =>
    have hmap : (inside.map f).all inParams = true := by rw [all_inParams_map hf, hinside]
    rw [← ofTokens_map hf inside, Segment.map, List.map_cons, List.map_cons]
    exact Fits.unclosed (by rwa [hf]) (by rwa [hf]) (by rwa [hf]) hmap
      (head?_map_of_head? hf (· = .eof) hrest)

theorem split_map (ts : List Token) : split (ts.map f) = (split ts).map (Segment.map f) := by
  induction ts using splitInduction with
  | nil => simp
  | eof t ts heof => rw [split_eof heof, List.map_cons, split_eof (by rwa [hf])]; rfl
  | segment s rest hhead hfits ih =>
    have hmap : (s.tokens ++ rest).map f = (s.map f).tokens ++ rest.map f := by
      rw [List.map_append]
      rfl
    have hhead' : (s.map f).head.kind ≠ .eof := by
      rw [Segment.map, hf]
      exact hhead
    rw [hmap, split_of_fits hhead' (Fits.map hf hfits), split_of_fits hhead hfits, ih]
    rfl

end Kinds

/-- The span of a segment whose last token is known. -/
lemma span_concat (head : Token) (tail : List Token) (last : Token) (node? : Option Declaration) :
    (⟨head, tail ++ [last], node?⟩ : Segment).span =
      ⟨min head.span.start last.span.stop, max head.span.stop last.span.stop⟩ := by
  rw [span, List.getLastD_concat]
  rfl

end Segment

/-- Reading finds the declaration of a segment that fits, and then those behind it. -/
theorem declarations_parse_of_fits {s : Segment} {rest : List Token} (hhead : s.head.kind ≠ .eof)
    (h : s.Fits rest) : (parse (s.tokens ++ rest)).declarations =
      s.declaration?.toList ++ (parse rest).declarations := by
  simp only [parse, Segment.split_of_fits hhead h, List.filterMap_cons]
  cases s.declaration? <;> rfl

theorem nodes_parse_of_fits {s : Segment} {rest : List Token} (hhead : s.head.kind ≠ .eof)
    (h : s.Fits rest) :
    (parse (s.tokens ++ rest)).nodes = s.node?.toList ++ (parse rest).nodes := by
  rw [Program.nodes, declarations_parse_of_fits hhead h, List.map_append, Segment.declaration?]
  cases s.node? <;> rfl

@[simp] lemma nodes_parse_nil : (parse []).nodes = [] := by
  simp [parse, Program.nodes]

end Scaffold
