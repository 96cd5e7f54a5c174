import Scaffold.Proofs.Placement
import Scaffold.Proofs.SegmentGrammar

/-!
# The text below a declaration

The span of a declaration is exactly the text it was read from: this text alone
is cut into the same tokens and read as the same declaration. Both stages are
local. Pieces stay what they are when the text around them is cut off, and a
segment that holds a declaration stays what it is at the end of the input.
-/
namespace Scaffold

namespace Segment

lemma span_map_shift (n : Nat) (s : Segment) : (s.map (Token.shift n)).span = s.span.shift n := by
  simp only [span, map, List.getLastD_map]
  exact Span.merge_shift n s.head.span (.point (s.tail.getLastD s.head).span.stop)

end Segment

/-- Tokens that lie further behind are read as declarations that do. -/
theorem parse_map_shift (n : Nat) (ts : List Token) :
    (parse (ts.map (Token.shift n))).declarations =
      (parse ts).declarations.map fun d => ⟨d.node, d.span.shift n⟩ := by
  have hkind : ∀ t : Token, (t.shift n).kind = t.kind := fun _ => rfl
  simp only [parse, Segment.split_map hkind, List.filterMap_map, List.map_filterMap]
  congr 1
  funext s
  simp only [Function.comp_apply, Segment.declaration?, Segment.span_map_shift, Option.map_map]
  rfl

/-- A segment alone in front of the end is read as its declaration. -/
lemma parse_segment {s : Segment} {node : Declaration} {e : Token} (hhead : s.head.kind ≠ .eof)
    (hnode : s.node? = some node) (he : e.kind = .eof) (hfits : s.Fits [e]) :
    (parse (s.tokens ++ [e])).declarations = [⟨node, s.span⟩] := by
  simp [parse, Segment.split_of_fits hhead hfits, Segment.split_eof he, Segment.declaration?, hnode]

/-- The pieces below a segment of a source, with the text on both sides of them. -/
lemma Segment.exists_pieces {source : String} {s : Segment} (h : s ∈ split (lex source)) :
    s.head.kind ≠ .eof ∧ (∃ rest, s.Fits rest) ∧ ∃ before between after,
      Piece.split source.toList = before ++ between ++ after ∧
      Token.lay (byteSize (before.flatMap Piece.text)) between = s.tokens ∧
      s.span = ⟨byteSize (before.flatMap Piece.text),
        byteSize (before.flatMap Piece.text) + byteSize (between.flatMap Piece.text)⟩ := by
  rw [lex_eq_lay] at h
  obtain ⟨left, rest, hlay, hhead, hfits⟩ := exists_append_of_mem_split_eof rfl h
  refine ⟨hhead, ⟨_, hfits⟩, ?_⟩
  obtain ⟨before, between, after, hpieces, hbetween, hstart, hstop⟩ :=
    Token.lay_eq_append_append hlay
  rw [Nat.zero_add] at hbetween hstart hstop
  refine ⟨before, between, after, hpieces, hbetween, ?_⟩
  have hmem : s.head ∈ Token.lay (byteSize (before.flatMap Piece.text)) between := by
    rw [hbetween]
    simp
  have hle := Token.stop_le_of_mem_lay hmem
  have hge := Token.le_start_of_mem_lay hmem
  rw [span, hstop]
  simp only [Span.merge, Span.point]
  rw [Nat.min_eq_left (by omega), Nat.max_eq_right (by omega), hstart]

/-- The text below neighbouring pieces has their tokens, moved to its beginning. -/
lemma lex_between {source : List Char} {before between after : List Piece}
    (h : Piece.split source = before ++ between ++ after) (n : Nat) :
    (lex (String.ofList (between.flatMap Piece.text))).map (Token.shift n) =
      Token.lay n between ++ [⟨.eof, .point (byteSize (between.flatMap Piece.text) + n)⟩] := by
  rw [lex_eq_lay, ← byteSize_toList, String.toList_ofList, Piece.split_between h,
    List.map_append, ← Token.lay_add, Nat.zero_add]
  rfl

lemma flatMap_text_ne_nil {source : List Char} {before between after : List Piece}
    (h : Piece.split source = before ++ between ++ after) (hne : between ≠ []) :
    between.flatMap Piece.text ≠ [] := by
  intro hnil
  have hsplit := Piece.split_between h
  rw [hnil, Piece.split_nil] at hsplit
  exact hne hsplit.symm

/-- The text below the pieces of a declaration is read as the declaration alone. -/
lemma parse_lex_between {source : List Char} {s : Segment} {node : Declaration}
    {before between after : List Piece} {n : Nat} {rest : List Token}
    (hpieces : Piece.split source = before ++ between ++ after)
    (hbetween : Token.lay n between = s.tokens)
    (hspan : s.span = ⟨n, n + byteSize (between.flatMap Piece.text)⟩)
    (hhead : s.head.kind ≠ .eof) (hnode : s.node? = some node) (hfits : s.Fits rest) :
    (parse (lex (String.ofList (between.flatMap Piece.text)))).declarations =
      [⟨node, ⟨0, byteSize (between.flatMap Piece.text)⟩⟩] := by
  have htokens := lex_between hpieces n
  rw [hbetween] at htokens
  have hparse := parse_map_shift n (lex (String.ofList (between.flatMap Piece.text)))
  rw [htokens, parse_segment hhead hnode rfl (hfits.before_eof (by simp [hnode]) rfl)] at hparse
  obtain ⟨⟨node', start, stop⟩, hd, hshift⟩ := List.map_eq_singleton_iff.mp hparse.symm
  simp only [Spanned.mk.injEq, Span.shift, hspan, Span.mk.injEq] at hshift
  obtain ⟨rfl, hstart, hstop⟩ := hshift
  have hzero : start = 0 := by omega
  have hsize : stop = byteSize (between.flatMap Piece.text) := by omega
  rw [hd, hzero, hsize]

/-- The span of a declaration lies between characters and is not empty. The text below it,
lexed and read on its own, is the declaration again and nothing else. -/
theorem parse_lex_slice {source : String} {d : Spanned Declaration}
    (h : d ∈ (parse (lex source)).declarations) :
    d.span.OnBoundaries source ∧ d.span.start < d.span.stop ∧
      d.span.stop ≤ source.utf8ByteSize ∧
      (parse (lex (d.span.slice source))).declarations =
        [⟨d.node, ⟨0, d.span.stop - d.span.start⟩⟩] := by
  obtain ⟨s, hs, hdecl⟩ := List.mem_filterMap.mp h
  obtain ⟨node, hnode, rfl⟩ := Option.map_eq_some_iff.mp hdecl
  obtain ⟨hhead, ⟨rest, hfits⟩, before, between, after, hpieces, hbetween, hspan⟩ :=
    Segment.exists_pieces hs
  have hcovers : s.span.Covers source.toList (between.flatMap Piece.text) := by
    refine ⟨before.flatMap Piece.text, after.flatMap Piece.text, ?_, hspan⟩
    rw [← Piece.flatMap_text_split source.toList, hpieces, List.flatMap_append,
      List.flatMap_append]
  have hne : between ≠ [] := by
    rintro rfl
    simp [Segment.tokens] at hbetween
  have hpos := byteSize_pos (flatMap_text_ne_nil hpieces hne)
  have hlength : s.span.stop - s.span.start = byteSize (between.flatMap Piece.text) := by
    rw [hspan]
    exact Nat.add_sub_cancel_left _ _
  have hlt : s.span.start < s.span.stop := by omega
  have hparse := parse_lex_between hpieces hbetween hspan hhead hnode hfits
  rw [← hcovers.slice_eq, ← hlength] at hparse
  exact ⟨hcovers.onBoundaries, hlt, hcovers.stop_le, hparse⟩

/-- A parameter list over two lines, closed neither by a parenthesis nor by a quote. -/
theorem parse_lex_slice_unclosed :
    (⟨.function { returnType := "int", name := "f", params := [⟨"char", "b.c"⟩] }, ⟨4, 26⟩⟩ :
        Spanned Declaration) ∈ (parse (lex "é; int f(\nchar b.c, = \"é")).declarations ∧
      (parse (lex "int f(\nchar b.c, = \"é")).declarations =
        [⟨.function { returnType := "int", name := "f", params := [⟨"char", "b.c"⟩] },
          ⟨0, 22⟩⟩] := by
  have hmem : (⟨.function { returnType := "int", name := "f", params := [⟨"char", "b.c"⟩] },
      ⟨4, 26⟩⟩ : Spanned Declaration) ∈
      (parse (lex "é; int f(\nchar b.c, = \"é")).declarations := by decide +kernel
  have hslice : (⟨4, 26⟩ : Span).slice "é; int f(\nchar b.c, = \"é" =
      "int f(\nchar b.c, = \"é" := by decide +kernel
  have hparse := (parse_lex_slice hmem).2.2.2
  rw [hslice] at hparse
  exact ⟨hmem, hparse⟩

end Scaffold
