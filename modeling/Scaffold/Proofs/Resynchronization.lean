import Scaffold.Proofs.DeclaredNames
import Scaffold.Proofs.Lookahead

/-!
# A line break and a closing parenthesis

Tokens can break off anywhere: in a directive, behind a type, behind an equals sign or
in a parameter list. A newline ends all of these except the parameter list, which takes
the newline for one of its tokens and ends at the parenthesis behind it. So behind the
two, reading always starts afresh.
-/
namespace Scaffold

/-- A token that is no name makes no parameter of the tokens in front of it. -/
lemma Param.ofTokens_concat {t : Token} (h : t.kind.name? = none) (ts : List Token) :
    ofTokens (ts ++ [t]) = ofTokens ts := by
  rw [ofTokens_eq, ofTokens_eq, Token.typedNames_append_cons h]
  exact congrArg _ (List.append_nil _)

namespace Segment

/-- The segment with more tokens behind its own. -/
def extend (s : Segment) (ts : List Token) : Segment := { s with tail := s.tail ++ ts }

lemma tokens_extend (s : Segment) (ts : List Token) :
    (s.extend ts).tokens = s.tokens ++ ts := rfl

/-- An open parameter list takes a newline and is closed behind it. -/
lemma OpenParams.extend_fits {s : Segment} (h : OpenParams s) {line closing : Token}
    (hline : line.kind = .newline) (hclosing : closing.kind = .delimiter .rparen)
    (rest : List Token) : Fits (s.extend [line, closing]) rest := by
  cases h with
  | @intro t named opening inside p name ht hnamed hopening hinside =>
    have hmore : (inside ++ [line]).all inParams = true := by
      simp [hinside, inParams, hline]
    have hfits : Fits _ rest := Fits.closed ht hnamed hopening hmore hclosing
    rw [Param.ofTokens_concat (by rw [hline]; rfl)] at hfits
    simpa [extend] using hfits

end Segment

section Divide

variable {line closing : Token} (hline : line.kind = .newline)
  (hclosing : closing.kind = .delimiter .rparen)
include hline hclosing

/-- The two tokens alone declare nothing. -/
lemma nodes_parse_newline_rparen (b : List Token) :
    (parse (line :: closing :: b)).nodes = (parse b).nodes := by
  have hfirst : Segment.Fits ⟨line, [], none⟩ (closing :: b) :=
    Segment.Fits.other (by simp [hline]) (by simp [hline])
  have hsecond : Segment.Fits ⟨closing, [], none⟩ b :=
    Segment.Fits.other (by simp [hclosing]) (by simp [hclosing])
  exact (nodes_parse_of_fits (by simp [hline]) hfirst).trans
    (nodes_parse_of_fits (by simp [hclosing]) hsecond)

/-- Tokens that break off inside of a segment have its declaration all the same. -/
lemma nodes_parse_segment_newline_rparen {s : Segment} (hhead : s.head.kind ≠ .eof)
    (hfits : s.Fits []) (b : List Token) :
    (parse (s.tokens ++ line :: closing :: b)).nodes = s.node?.toList ++ (parse b).nodes := by
  rcases hfits.before_newline_or_open hline (closing :: b) with hfits | hopen
  · rw [nodes_parse_of_fits hhead hfits, nodes_parse_newline_rparen hline hclosing]
  · have hextended := hopen.extend_fits hline hclosing b
    have hnodes := nodes_parse_of_fits (s := s.extend [line, closing]) hhead hextended
    rw [Segment.tokens_extend, List.append_assoc] at hnodes
    exact hnodes

end Divide

/-- Behind a newline and a closing parenthesis reading starts afresh, however the tokens in front
of them break off: no declaration on either side is lost, changed or added. -/
theorem nodes_parse_append_newline_rparen {a : List Token} {line closing : Token}
    (ha : ∀ t ∈ a, t.kind ≠ .eof) (hline : line.kind = .newline)
    (hclosing : closing.kind = .delimiter .rparen) (b : List Token) :
    (parse (a ++ [line, closing] ++ b)).nodes = (parse a).nodes ++ (parse b).nodes := by
  rw [List.append_assoc]
  induction a using Segment.splitInduction with
  | nil => simpa using nodes_parse_newline_rparen hline hclosing b
  | eof t ts heof => exact absurd heof (ha t (by simp))
  | segment s rest hhead hfits ih =>
    rw [nodes_parse_of_fits hhead hfits, List.append_assoc]
    cases rest with
    | nil => simpa using nodes_parse_segment_newline_rparen hline hclosing hhead hfits b
    | cons u rest =>
      have hfits' : s.Fits (u :: rest ++ ([line, closing] ++ b)) := hfits.exchange (by simp)
      rw [nodes_parse_of_fits hhead hfits', ih fun t ht => ha t (by simp [ht]),
        List.append_assoc]

/-- A parameter list that breaks off behind a type, in front of tokens that begin with a name. -/
theorem nodes_parse_append_newline_rparen_open :
    (∀ t ∈ (lex "#include <a\nint x = 5 float f(char c, int").dropLast, t.kind ≠ .eof) ∧
      (parse ((lex "#include <a\nint x = 5 float f(char c, int").dropLast ++
        [⟨.newline, ⟨9, 3⟩⟩, ⟨.delimiter .rparen, ⟨0, 0⟩⟩] ++ lex "y) char z")).nodes =
          [.var ⟨"int", "x", some "5"⟩,
            .function { returnType := "float", name := "f", params := [⟨"char", "c"⟩] },
            .var ⟨"char", "z", none⟩] := by
  have ha : ∀ t ∈ (lex "#include <a\nint x = 5 float f(char c, int").dropLast,
      t.kind ≠ .eof := by decide +kernel
  refine ⟨ha, ?_⟩
  rw [nodes_parse_append_newline_rparen ha rfl rfl]
  decide +kernel

end Scaffold
