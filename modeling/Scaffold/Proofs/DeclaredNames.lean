import Mathlib.Data.List.Chain
import Scaffold.Declaration.Printer
import Scaffold.Proofs.SegmentGrammar
import Scaffold.Token.Lexer

/-!
# Names by position and names by reading

A type directly followed by a name can be found by looking at neighbouring tokens
only. Reading finds the same pairs in the same order, whatever else the tokens
hold, as long as no type stands where a single token is taken for its text. Between
the parentheses of a function they are its parameters, without any condition.
-/
namespace Scaffold

namespace Token

/-- The type and the name that two tokens declare. -/
def declares? (t n : Token) : Option (String × String) :=
  match t.kind.declarable?, n.kind.name? with
  | some p, some name => some (p.spelling, name)
  | _, _ => none

/-- The types with names behind them, by position. -/
def typedNames (ts : List Token) : List (String × String) :=
  (ts.zip ts.tail).filterMap fun pair => declares? pair.1 pair.2

/-- A token whose successor is taken for its text does not stand in front of a type. -/
def ValueFree (t n : Token) : Prop :=
  t.kind = .operator .eq ∨ t.kind = .operator .lt → n.kind.declarable? = none

instance : DecidableRel ValueFree := fun _ _ => inferInstanceAs (Decidable (_ → _))

lemma typedNames_cons_cons (t n : Token) (ts : List Token) :
    typedNames (t :: n :: ts) = (declares? t n).toList ++ typedNames (n :: ts) := by
  simp only [typedNames, List.tail_cons, List.zip_cons_cons, List.filterMap_cons]
  cases declares? t n <;> rfl

lemma typedNames_of_not_type {t : Token} (h : t.kind.declarable? = none) (ts : List Token) :
    typedNames (t :: ts) = typedNames ts := by
  cases ts with
  | nil => rfl
  | cons n ts =>
    rw [typedNames_cons_cons, declares?, h]
    rfl

lemma typedNames_append_of_no_type {front : List Token}
    (h : ∀ t ∈ front, t.kind.declarable? = none) (ts : List Token) :
    typedNames (front ++ ts) = typedNames ts := by
  induction front with
  | nil => rfl
  | cons t front ih =>
    obtain ⟨ht, hfront⟩ := List.forall_mem_cons.mp h
    rw [List.cons_append, typedNames_of_not_type ht, ih hfront]

/-- No pair reaches over a token that is no name. -/
lemma typedNames_append_cons {n : Token} (h : n.kind.name? = none) (front ts : List Token) :
    typedNames (front ++ n :: ts) = typedNames front ++ typedNames (n :: ts) := by
  induction front with
  | nil => rfl
  | cons t front ih =>
    cases front with
    | nil =>
      have hnone : declares? t n = none := by
        simp only [declares?, h]
        cases t.kind.declarable? <;> rfl
      rw [List.singleton_append, typedNames_cons_cons, hnone]
      rfl
    | cons u front =>
      rw [List.cons_append, List.cons_append, typedNames_cons_cons, ← List.cons_append, ih,
        typedNames_cons_cons, List.append_assoc]

lemma typedNames_of_declares {t n : Token} {p : Primitive} {name : String}
    (ht : t.kind.declarable? = some p) (hn : n.kind.name? = some name) (ts : List Token) :
    typedNames (t :: n :: ts) = (p.spelling, name) :: typedNames ts := by
  have hnot : n.kind.declarable? = none := by
    cases hd : n.kind.declarable? with
    | none => rfl
    | some q =>
      rw [TokenKind.name?_eq_none_of_declarable? hd] at hn
      cases hn
  rw [typedNames_cons_cons, typedNames_of_not_type hnot, declares?, ht, hn]
  rfl

/-- Between two parentheses, the parameters are the types with names behind them. -/
theorem map_ofTokens (ts : List Token) :
    (Param.ofTokens ts).map (fun p => (p.type, p.name)) = typedNames ts := by
  fun_induction Param.ofTokens ts with
  | case1 t n ts p name hn ht ih =>
    rw [typedNames_of_declares ht hn, List.map_cons, ih]
  | case2 t n ts hne ih =>
    have hnone : declares? t n = none := by
      unfold declares?
      split
      · rename_i p name ht hn
        exact absurd hn (hne p name ht)
      · rfl
    rw [typedNames_cons_cons, hnone, ih]
    rfl
  | case3 ts hne =>
    match ts, hne with
    | [], _ => rfl
    | [t], _ => rfl
    | t :: n :: ts, hne => exact absurd rfl (hne t n ts)

/-- A directive that breaks off holds no type: only the token behind its bracket is free. -/
lemma no_type_of_directive {used rest : List Token}
    (hused : Segment.expect Segment.inclusionTests (used ++ rest) = (used, rest))
    (hshort : used.length < 4) (hchain : used.IsChain ValueFree) :
    ∀ t ∈ used, t.kind.declarable? = none := by
  have hpassed := Segment.expect_passed Segment.inclusionTests (used ++ rest)
  rw [hused] at hpassed
  rcases used with _ | ⟨word, _ | ⟨opening, _ | ⟨library, _ | ⟨_, _⟩⟩⟩⟩
  all_goals
    simp only [Segment.inclusionTests, List.length_cons, List.length_nil, List.take_succ_cons,
      List.take_zero, List.forall₂_cons, decide_eq_true_eq] at hpassed
  · simp
  · simp [hpassed.1]
  · simp [hpassed.1, hpassed.2.1]
  · simp only [List.isChain_cons_cons] at hchain
    have hlibrary := hchain.2.1 (Or.inr hpassed.2.1)
    simp [hpassed.1, hpassed.2.1, hlibrary]
  · simp only [List.length_cons] at hshort
    omega

/-- One segment accounts for exactly the pairs that begin in it. -/
lemma typedNames_of_fits {s : Segment} {rest : List Token} (hfits : s.Fits rest)
    (heof : ∀ t ∈ rest, t.kind ≠ .eof) (hchain : s.tokens.IsChain ValueFree) :
    typedNames (s.tokens ++ rest) =
      s.node?.toList.flatMap Declaration.introduced ++ typedNames rest := by
  cases hfits with
  | other _ ht => exact typedNames_of_not_type ht rest
  | @directive t used _ hhash hused hshort =>
    have ht : t.kind.declarable? = none := by simp [hhash]
    have hnone := no_type_of_directive hused hshort hchain.of_cons
    exact typedNames_append_of_no_type (List.forall_mem_cons.mpr ⟨ht, hnone⟩) rest
  | @inclusion t word opening library closing _ hhash hword hopening hlibrary hclosing =>
    simp only [Segment.tokens, List.isChain_cons_cons] at hchain
    have hfree := hchain.2.2.1 (Or.inr hopening)
    refine typedNames_append_of_no_type ?_ rest
    simp [Segment.tokens, hhash, hword, hopening, hclosing, hfree]
  | @bareType t p _ ht hrest =>
    cases rest with
    | nil => rfl
    | cons u rest =>
      have hu : u.kind.name? = none := by simpa using hrest
      exact typedNames_append_cons hu [t] rest
  | plain ht hnamed hrest => exact typedNames_of_declares ht hnamed rest
  | @dangling t named equals p name _ ht hnamed hequals hrest =>
    have hnone : equals.kind.declarable? = none := by simp [hequals]
    simp only [Segment.tokens, List.cons_append, List.nil_append]
    rw [typedNames_of_declares ht hnamed, typedNames_of_not_type hnone]
    rfl
  | @initialized t named equals value p name _ ht hnamed hequals hvalue =>
    simp only [Segment.tokens, List.isChain_cons_cons] at hchain
    have hfree := hchain.2.2.1 (Or.inl hequals)
    have hnone : equals.kind.declarable? = none := by simp [hequals]
    simp only [Segment.tokens, List.cons_append, List.nil_append]
    rw [typedNames_of_declares ht hnamed, typedNames_of_not_type hnone,
      typedNames_of_not_type hfree]
    rfl
  | @closed t named opening closing inside p name _ ht hnamed hopening hinside hclosing =>
    have hnone : opening.kind.declarable? = none := by simp [hopening]
    have hname : closing.kind.name? = none := by simp [hclosing]
    have htype : closing.kind.declarable? = none := by simp [hclosing]
    simp only [Segment.tokens, List.cons_append, List.append_assoc, List.nil_append]
    rw [typedNames_of_declares ht hnamed, typedNames_of_not_type hnone,
      typedNames_append_cons hname, typedNames_of_not_type htype, ← map_ofTokens inside]
    simp [Declaration.introduced]
  | @unclosed t named opening inside p name _ ht hnamed hopening hinside hrest =>
    have hnil : rest = [] := by
      cases rest with
      | nil => rfl
      | cons u rest => exact absurd (hrest u rfl) (heof u (by simp))
    have hnone : opening.kind.declarable? = none := by simp [hopening]
    rw [hnil, List.append_nil, Segment.tokens, typedNames_of_declares ht hnamed,
      typedNames_of_not_type hnone, ← map_ofTokens inside]
    simp [Declaration.introduced, typedNames]

end Token

lemma Param.ofTokens_eq (ts : List Token) :
    ofTokens ts = (Token.typedNames ts).map fun pair => ⟨pair.1, pair.2⟩ := by
  rw [← Token.map_ofTokens, List.map_map]
  exact (List.map_id _).symm

/-- Reading introduces the types with names behind them, each once and in their order, in
every token list in which no type is taken for a value. -/
theorem flatMap_introduced_parse {ts : List Token} (heof : ∀ t ∈ ts, t.kind ≠ .eof)
    (hchain : ts.IsChain Token.ValueFree) :
    (parse ts).nodes.flatMap Declaration.introduced = Token.typedNames ts := by
  induction ts using Segment.splitInduction with
  | nil => simp [parse, Program.nodes, Token.typedNames]
  | eof t ts h => exact absurd h (heof t (by simp))
  | segment s rest hhead hfits ih =>
    have hrest : ∀ t ∈ rest, t.kind ≠ .eof := fun t ht => heof t (by simp [ht])
    rw [nodes_parse_of_fits hhead hfits, List.flatMap_append,
      ih hrest hchain.right_of_append,
      Token.typedNames_of_fits hfits hrest hchain.left_of_append]

/-- A type without a name, a variable, a directive that breaks off, and a parameter list
that is never closed. -/
theorem flatMap_introduced_parse_malformed :
    (parse (lex "int float x = main #include <a void scanf(char y int int z =").dropLast
        ).nodes.flatMap Declaration.introduced =
      [("float", "x"), ("void", "scanf"), ("char", "y"), ("int", "z")] := by
  rw [flatMap_introduced_parse (by decide +kernel) (by decide +kernel)]
  decide +kernel

/-- A signature ends at its first closing parenthesis. Its parameters are the types with names
behind them, whatever else stands between the parentheses, and the tokens behind it are read
as if they stood alone. -/
theorem declarations_parse_signature {t named opening closing : Token} {inside : List Token}
    {p : Primitive} {name : String} (ht : t.kind.declarable? = some p)
    (hnamed : named.kind.name? = some name) (hopening : opening.kind = .delimiter .lparen)
    (hinside : ∀ u ∈ inside, u.kind ≠ .delimiter .rparen ∧ u.kind ≠ .eof)
    (hclosing : closing.kind = .delimiter .rparen) (rest : List Token) :
    (parse ([t, named, opening] ++ inside ++ [closing] ++ rest)).declarations =
      ⟨.function {
          returnType := p.spelling
          name
          params := (Token.typedNames inside).map fun pair => ⟨pair.1, pair.2⟩
          body := [] },
        ⟨min t.span.start closing.span.stop, max t.span.stop closing.span.stop⟩⟩ ::
      (parse rest).declarations := by
  have hall : inside.all Segment.inParams = true := by
    simpa [Segment.inParams] using hinside
  have hfits : Segment.Fits _ rest := Segment.Fits.closed ht hnamed hopening hall hclosing
  have hhead : t.kind ≠ .eof := by
    intro heof
    simp [heof] at ht
  have hread := declarations_parse_of_fits hhead hfits
  rw [Segment.declaration?, Segment.span_concat, Param.ofTokens_eq] at hread
  simpa [Segment.tokens] using hread

/-- A parameter list with a nested parenthesis, types without names and types in a row, in front
of a body with a declaration. -/
theorem declarations_parse_signature_crowded :
    let inside := (lex "int (a, float #float x = char\nchar scanf void").dropLast
    (∀ u ∈ inside, u.kind ≠ .delimiter .rparen ∧ u.kind ≠ .eof) ∧
      (parse ([⟨.keyword (.type .int), ⟨7, 3⟩⟩, ⟨.keyword (.reserved .entry), ⟨0, 0⟩⟩,
        ⟨.delimiter .lparen, ⟨2, 1⟩⟩] ++ inside ++ [⟨.delimiter .rparen, ⟨8, 5⟩⟩] ++
        lex "\x7b int y = 5; \x7d")).declarations =
          [⟨.function
              { returnType := "int", name := "main",
                params := [⟨"float", "x"⟩, ⟨"char", "scanf"⟩] }, ⟨5, 5⟩⟩,
            ⟨.var ⟨"int", "y", some "5"⟩, ⟨2, 11⟩⟩] := by
  intro inside
  have hinside : ∀ u ∈ inside, u.kind ≠ .delimiter .rparen ∧ u.kind ≠ .eof := by decide +kernel
  refine ⟨hinside, ?_⟩
  rw [declarations_parse_signature rfl rfl rfl hinside rfl]
  decide +kernel

end Scaffold
