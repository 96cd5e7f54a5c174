import Scaffold.Declaration.Basic
import Scaffold.Token.Basic

/-!
# Segments of a token list

A token list is cut into segments from left to right. The first token of a
segment decides what is tried: a hash opens an inclusion, a declarable type a
function or a variable, and any other token stands alone. What does not fit
ends the segment without a declaration, and the next segment starts there. An
end token is never part of a segment: the segments put together again are the
tokens before the first one. A program is read from its tokens segment by
segment.
-/
namespace Scaffold

/-- The parameters written between two parentheses: each declarable type with a name after it. -/
def Param.ofTokens : List Token → List Param
  | t :: n :: ts => match t.kind.declarable?, n.kind.name? with
    | some p, some name => ⟨p.spelling, name⟩ :: Param.ofTokens ts
    | _, _ => Param.ofTokens (n :: ts)
  | _ => []

structure Segment where
  head : Token
  tail : List Token
  node? : Option Declaration
  deriving DecidableEq, Repr

namespace Segment

def tokens (s : Segment) : List Token := s.head :: s.tail

/-- From the first token to the end of the last one. -/
def span (s : Segment) : Span := s.head.span.merge (.point (s.tail.getLastD s.head).span.stop)

def declaration? (s : Segment) : Option (Spanned Declaration) := s.node?.map (⟨·, s.span⟩)

/-- Takes tokens as long as they pass one test after the other. -/
def expect : List (TokenKind → Bool) → List Token → List Token × List Token
  | test :: tests, t :: ts =>
    if test t.kind then (t :: (expect tests ts).1, (expect tests ts).2) else ([], t :: ts)
  | _, ts => ([], ts)

/-- What follows the hash of an inclusion; the third token names the library. -/
def inclusionTests : List (TokenKind → Bool) :=
  [(· = .keyword (.reserved .directive)), (· = .operator .lt), (!·.isLayout), (· = .operator .gt)]

def ofHash (hash : Token) (ts : List Token) : Segment × List Token :=
  match expect inclusionTests ts with
  | ([word, opening, library, closing], rest) =>
    (⟨hash, [word, opening, library, closing],
      some (.inclusion ⟨library.kind.lexeme?.getD ""⟩)⟩, rest)
  | (used, rest) => (⟨hash, used, none⟩, rest)

/-- A parameter list goes on up to a closing parenthesis or the end. -/
def inParams (t : Token) : Bool := t.kind ≠ .delimiter .rparen ∧ t.kind ≠ .eof

/-- The closing parenthesis belongs to the function if it is there. -/
def ofFunction (type name : String) (head named opening : Token) (ts : List Token) :
    Segment × List Token :=
  let inside := ts.takeWhile inParams
  let closing := expect [(· = .delimiter .rparen)] (ts.dropWhile inParams)
  (⟨head, named :: opening :: inside ++ closing.1,
    some (.function { returnType := type, name, params := Param.ofTokens inside })⟩, closing.2)

/-- The token after the equals sign is the initializer unless the line ends there. -/
def ofInitializer (type name : String) (head named equals : Token) (ts : List Token) :
    Segment × List Token :=
  match expect [(!·.isLayout)] ts with
  | ([value], rest) =>
    (⟨head, [named, equals, value], some (.var ⟨type, name, value.kind.lexeme?⟩)⟩, rest)
  | (_, rest) => (⟨head, [named, equals], some (.var ⟨type, name, none⟩)⟩, rest)

def ofName (type name : String) (head named : Token) : List Token → Segment × List Token
  | [] => (⟨head, [named], some (.var ⟨type, name, none⟩)⟩, [])
  | t :: ts =>
    if t.kind = .delimiter .lparen then ofFunction type name head named t ts
    else if t.kind = .operator .eq then ofInitializer type name head named t ts
    else (⟨head, [named], some (.var ⟨type, name, none⟩)⟩, t :: ts)

def ofType (type : String) (head : Token) : List Token → Segment × List Token
  | [] => (⟨head, [], none⟩, [])
  | t :: ts => match t.kind.name? with
    | none => (⟨head, [], none⟩, t :: ts)
    | some name => ofName type name head t ts

/-- The first segment of the tokens `t :: ts`, and the tokens after it. -/
def first (t : Token) (ts : List Token) : Segment × List Token :=
  if t.kind = .delimiter .hash then ofHash t ts
  else match t.kind.declarable? with
    | some p => ofType p.spelling t ts
    | none => (⟨t, [], none⟩, ts)

theorem expect_append (tests : List (TokenKind → Bool)) (ts : List Token) :
    (expect tests ts).1 ++ (expect tests ts).2 = ts := by
  fun_induction expect tests ts with
  | case1 test tests t ts h ih => rw [List.cons_append, ih]
  | case2 => rfl
  | case3 => rfl

/-- Tests that no end token passes leave it where it is. -/
theorem kind_ne_eof_of_mem_expect {tests : List (TokenKind → Bool)}
    (h : ∀ test ∈ tests, test .eof = false) (ts : List Token) :
    ∀ t ∈ (expect tests ts).1, t.kind ≠ .eof := by
  fun_induction expect tests ts with
  | case1 test tests t ts hpass ih =>
    intro u hu
    rcases List.mem_cons.mp hu with rfl | hu
    · intro heof
      have hfail := h test (by simp)
      rw [heof, hfail] at hpass
      contradiction
    · exact ih (fun test htest => h test (by simp [htest])) u hu
  | case2 => simp
  | case3 => simp

theorem expect_one (test : TokenKind → Bool) (ts : List Token) :
    (∃ t, (expect [test] ts).1 = [t]) ∨ (expect [test] ts).1 = [] := by
  cases ts with
  | nil => exact Or.inr rfl
  | cons t ts =>
    rw [expect]
    split
    · exact Or.inl ⟨t, by simp [expect]⟩
    · exact Or.inr rfl

theorem ofHash_tokens (hash : Token) (ts : List Token) :
    (ofHash hash ts).1.tokens = hash :: (expect inclusionTests ts).1 := by
  unfold ofHash
  split
  · rename_i he
    rw [he]
    rfl
  · rename_i he
    rw [he]
    rfl

theorem ofHash_rest (hash : Token) (ts : List Token) :
    (ofHash hash ts).2 = (expect inclusionTests ts).2 := by
  unfold ofHash
  split
  · rename_i he
    rw [he]
  · rename_i he
    rw [he]

theorem ofFunction_append (type name : String) (head named opening : Token) (ts : List Token) :
    (ofFunction type name head named opening ts).1.tokens ++
      (ofFunction type name head named opening ts).2 = head :: named :: opening :: ts := by
  simp only [ofFunction, tokens, List.cons_append, List.append_assoc, expect_append,
    List.takeWhile_append_dropWhile]

theorem ofInitializer_tokens (type name : String) (head named equals : Token)
    (ts : List Token) :
    (ofInitializer type name head named equals ts).1.tokens =
      head :: named :: equals :: (expect [(!·.isLayout)] ts).1 := by
  unfold ofInitializer
  split
  · rename_i he
    rw [he]
    rfl
  · rename_i used rest hne he
    rcases expect_one (!·.isLayout) ts with ⟨t, ht⟩ | hnil
    · rw [he] at ht
      exact absurd ht (hne t)
    · rw [hnil]
      rfl

theorem ofInitializer_rest (type name : String) (head named equals : Token) (ts : List Token) :
    (ofInitializer type name head named equals ts).2 = (expect [(!·.isLayout)] ts).2 := by
  unfold ofInitializer
  split
  · rename_i he
    rw [he]
  · rename_i he
    rw [he]

theorem ofName_append (type name : String) (head named : Token) (ts : List Token) :
    (ofName type name head named ts).1.tokens ++ (ofName type name head named ts).2 =
      head :: named :: ts := by
  cases ts with
  | nil => rfl
  | cons t ts =>
    rw [ofName]
    split
    · exact ofFunction_append _ _ _ _ _ _
    split
    · rw [ofInitializer_tokens, ofInitializer_rest]
      simp [expect_append]
    · rfl

theorem ofType_append (type : String) (head : Token) (ts : List Token) :
    (ofType type head ts).1.tokens ++ (ofType type head ts).2 = head :: ts := by
  cases ts with
  | nil => rfl
  | cons t ts =>
    rw [ofType]
    split
    · rfl
    · exact ofName_append _ _ _ _ _

/-- The first segment and the tokens after it make up the token list. -/
theorem first_append (t : Token) (ts : List Token) :
    (first t ts).1.tokens ++ (first t ts).2 = t :: ts := by
  unfold first
  split
  · rw [ofHash_tokens, ofHash_rest]
    simp [expect_append]
  · split
    · exact ofType_append _ t ts
    · rfl

theorem first_rest_length_le (t : Token) (ts : List Token) :
    (first t ts).2.length ≤ ts.length := by
  have h := congrArg List.length (first_append t ts)
  simp only [tokens, List.cons_append, List.length_cons, List.length_append] at h
  omega

/-- Cuts one segment after the other behind those already found, up to an end token. -/
def collect (found : Array Segment) : List Token → Array Segment
  | [] => found
  | t :: ts =>
    if t.kind = .eof then found
    else
      let cut := first t ts
      collect (found.push cut.1) cut.2
termination_by ts => ts.length
decreasing_by
  have h := first_rest_length_le t ts
  simp only [List.length_cons]
  omega

theorem toList_collect (found : Array Segment) (ts : List Token) :
    (collect found ts).toList = found.toList ++ (collect #[] ts).toList := by
  induction h : ts.length using Nat.strongRecOn generalizing found ts with
  | ind n ih =>
    cases ts with
    | nil => simp [collect]
    | cons t ts =>
      have hlt := first_rest_length_le t ts
      simp only [List.length_cons] at h
      rw [collect, collect]
      split
      · simp
      · rw [ih _ (by omega) _ _ rfl, ih _ (by omega) (#[].push _) _ rfl]
        simp

/-- The segments of a token list, from left to right. -/
def split (ts : List Token) : List Segment := (collect #[] ts).toList

@[simp] theorem split_nil : split [] = [] := by simp [split, collect]

theorem split_eof {t : Token} (h : t.kind = .eof) (ts : List Token) : split (t :: ts) = [] := by
  rw [split, collect, if_pos h]

theorem split_cons {t : Token} (h : t.kind ≠ .eof) (ts : List Token) :
    split (t :: ts) = (first t ts).1 :: split (first t ts).2 := by
  rw [split, collect, if_neg h, toList_collect]
  rfl

theorem ofFunction_tokens_ne_eof (type name : String) {head named opening : Token}
    (hhead : head.kind ≠ .eof) (hnamed : named.kind ≠ .eof) (hopening : opening.kind ≠ .eof)
    (ts : List Token) :
    ∀ t ∈ (ofFunction type name head named opening ts).1.tokens, t.kind ≠ .eof := by
  intro t ht
  simp only [ofFunction, tokens, List.mem_cons, List.cons_append, List.mem_append] at ht
  rcases ht with rfl | rfl | rfl | hinside | hclosing
  · exact hhead
  · exact hnamed
  · exact hopening
  · have h := List.all_eq_true.mp List.all_takeWhile t hinside
    simp only [inParams, decide_eq_true_eq] at h
    exact h.2
  · exact kind_ne_eof_of_mem_expect (by simp) _ t hclosing

theorem ofName_tokens_ne_eof (type name : String) {head named : Token}
    (hhead : head.kind ≠ .eof) (hnamed : named.kind ≠ .eof) (ts : List Token) :
    ∀ t ∈ (ofName type name head named ts).1.tokens, t.kind ≠ .eof := by
  have hboth : ∀ t ∈ [head, named], t.kind ≠ .eof := by
    intro t ht
    rcases List.mem_cons.mp ht with rfl | ht
    · exact hhead
    · rw [List.mem_singleton.mp ht]
      exact hnamed
  cases ts with
  | nil => exact hboth
  | cons t ts =>
    rw [ofName]
    split
    · rename_i h
      exact ofFunction_tokens_ne_eof type name hhead hnamed (by simp [h]) ts
    split
    · rename_i h
      rw [ofInitializer_tokens]
      intro u hu
      simp only [List.mem_cons] at hu
      rcases hu with rfl | rfl | rfl | hu
      · exact hhead
      · exact hnamed
      · simp [h]
      · exact kind_ne_eof_of_mem_expect (by simp [TokenKind.isLayout]) _ u hu
    · exact hboth

theorem ofType_tokens_ne_eof (type : String) {head : Token} (hhead : head.kind ≠ .eof)
    (ts : List Token) : ∀ t ∈ (ofType type head ts).1.tokens, t.kind ≠ .eof := by
  have hone : ∀ t ∈ [head], t.kind ≠ .eof := by
    intro t ht
    rw [List.mem_singleton.mp ht]
    exact hhead
  cases ts with
  | nil => exact hone
  | cons t ts =>
    rw [ofType]
    split
    · exact hone
    · rename_i name hname
      refine ofName_tokens_ne_eof type name hhead ?_ ts
      intro heof
      simp [heof, TokenKind.name?] at hname

/-- A segment that does not start at an end token holds none. -/
theorem first_tokens_ne_eof {t : Token} (h : t.kind ≠ .eof) (ts : List Token) :
    ∀ u ∈ (first t ts).1.tokens, u.kind ≠ .eof := by
  unfold first
  split
  · rw [ofHash_tokens]
    intro u hu
    rcases List.mem_cons.mp hu with rfl | hu
    · exact h
    · exact kind_ne_eof_of_mem_expect (by simp [inclusionTests, TokenKind.isLayout]) _ u hu
  split
  · exact ofType_tokens_ne_eof _ h ts
  · intro u hu
    rw [List.mem_singleton.mp hu]
    exact h

/-- The segments put together again are the tokens before the first end token. -/
theorem flatMap_tokens_split (ts : List Token) :
    (split ts).flatMap tokens = ts.takeWhile (·.kind ≠ .eof) := by
  induction h : ts.length using Nat.strongRecOn generalizing ts with
  | ind n ih =>
    cases ts with
    | nil => simp
    | cons t ts =>
      by_cases heof : t.kind = .eof
      · simp [split_eof heof, heof]
      · have hlt := first_rest_length_le t ts
        simp only [List.length_cons] at h
        rw [split_cons heof, List.flatMap_cons, ih _ (by omega) _ rfl]
        conv => rhs; rw [← first_append t ts]
        rw [List.takeWhile_append_of_pos]
        intro u hu
        simpa using first_tokens_ne_eof heof ts u hu

end Segment

/-- The program of a token list: the declarations of its segments, in order. -/
def parse (ts : List Token) : Program :=
  ⟨(Segment.split ts).filterMap Segment.declaration?⟩

end Scaffold
