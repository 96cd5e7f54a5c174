import Scaffold.Proofs.Lookahead

/-!
# Where tokens end

An end token stops reading where it stands: at the top level, in a directive, behind a
type or an equals sign, and in a parameter list. The end of the list stops it in the same
places. So no declaration depends on what stands behind an end token, nor on whether there
is one.
-/
namespace Scaffold

namespace Segment

/-- A segment is cut off the same way when the tokens from an end token on are left out. -/
lemma Fits.before_end {s : Segment} {rest : List Token} (h : Fits s rest) :
    Fits s (rest.takeWhile (·.kind ≠ .eof)) := by
  apply h.exchange
  intro u hu
  rw [List.head?_takeWhile, Option.mem_def, Option.filter_eq_some_iff] at hu
  exact ⟨u, hu.1, rfl⟩

/-- The segments of a list are those of the tokens before its first end token. -/
theorem split_takeWhile_ne_eof (ts : List Token) :
    split (ts.takeWhile (·.kind ≠ .eof)) = split ts := by
  induction ts using splitInduction with
  | nil => rfl
  | eof t ts heof =>
    rw [split_eof heof, List.takeWhile_cons_of_neg (by simp [heof]), split_nil]
  | segment s rest hhead hfits ih =>
    have htokens : ∀ t ∈ s.tokens, decide (t.kind ≠ .eof) = true := by
      simpa using hfits.tokens_ne_eof hhead
    rw [List.takeWhile_append_of_pos htokens, split_of_fits hhead hfits.before_end, ih,
      split_of_fits hhead hfits]

end Segment

/-- Tokens are read as those before their first end token, spans included. An end token hides
what stands behind it, and at the end of the tokens it makes no difference. -/
theorem parse_before_end (ts : List Token) :
    parse ts = parse (ts.takeWhile (·.kind ≠ .eof)) ∧
      ∀ (span : Span) (hidden : List Token), parse (ts ++ ⟨.eof, span⟩ :: hidden) = parse ts := by
  have hread : ∀ us : List Token, parse us = parse (us.takeWhile (·.kind ≠ .eof)) := by
    intro us
    rw [parse, parse, Segment.split_takeWhile_ne_eof]
  refine ⟨hread ts, fun span hidden => ?_⟩
  have hcut : (ts ++ ⟨.eof, span⟩ :: hidden).takeWhile (·.kind ≠ .eof) =
      ts.takeWhile (·.kind ≠ .eof) := by
    rw [List.takeWhile_append]
    split
    · rename_i hall
      rw [(List.takeWhile_prefix _).eq_of_length hall]
      simp
    · rfl
  rw [hread, hcut, ← hread]

end Scaffold
