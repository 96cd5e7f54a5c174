import Mathlib.Data.String.Basic
import Scaffold.Proofs.PieceGrammar
import Scaffold.Token.Lexer

/-!
# Where tokens lie

Offsets count the bytes of a text. `Token.lay` places the significant pieces of a
text from an offset on; the tokens of a source are these and the end token. Each
token can be traced back to its piece, and each span to the text below it.
-/
namespace Scaffold

lemma byteSize_eq_utf8Len (cs : List Char) : byteSize cs = String.utf8Len cs := by
  induction cs with
  | nil => rfl
  | cons c cs ih => rw [byteSize_cons, String.utf8Len_cons, ih, Nat.add_comm]

lemma byteSize_toList (source : String) : byteSize source.toList = source.utf8ByteSize := by
  rw [byteSize_eq_utf8Len, String.utf8Len_toList]

lemma byteSize_pos {cs : List Char} (h : cs ≠ []) : 0 < byteSize cs := by
  obtain ⟨c, cs, rfl⟩ := List.exists_cons_of_ne_nil h
  have hc := c.utf8Size_pos
  rw [byteSize_cons]
  omega

namespace Span

/-- The text between the two offsets. -/
def slice (s : Span) (source : String) : String :=
  String.Pos.Raw.extract source ⟨s.start⟩ ⟨s.stop⟩

/-- Both offsets lie between two characters of the source, or at an end of it. -/
def OnBoundaries (s : Span) (source : String) : Prop :=
  (String.Pos.Raw.mk s.start).IsValid source ∧ (String.Pos.Raw.mk s.stop).IsValid source

/-- The offsets of a text inside of a source. -/
def Covers (s : Span) (source text : List Char) : Prop :=
  ∃ before after, source = before ++ text ++ after ∧
    s = ⟨byteSize before, byteSize before + byteSize text⟩

lemma isValid_byteSize (before after : List Char) :
    (String.Pos.Raw.mk (byteSize before)).IsValid (String.ofList (before ++ after)) := by
  rw [String.Pos.Raw.isValid_iff_exists_append]
  refine ⟨String.ofList before, String.ofList after, String.ofList_append, ?_⟩
  rw [String.rawEndPos_ofList, byteSize_eq_utf8Len]

variable {s : Span} {source : String} {text : List Char}

lemma Covers.onBoundaries (h : s.Covers source.toList text) : s.OnBoundaries source := by
  obtain ⟨before, after, hsource, rfl⟩ := h
  rw [← String.ofList_toList (s := source), hsource]
  constructor
  · rw [List.append_assoc]
    exact isValid_byteSize before (text ++ after)
  · rw [← byteSize_append]
    exact isValid_byteSize (before ++ text) after

lemma Covers.slice_eq (h : s.Covers source.toList text) :
    s.slice source = String.ofList text := by
  obtain ⟨before, after, hsource, rfl⟩ := h
  rw [slice, ← String.ofList_toList (s := source), hsource, byteSize_eq_utf8Len,
    byteSize_eq_utf8Len, String.extract_of_valid]

lemma Covers.stop_le (h : s.Covers source.toList text) : s.stop ≤ source.utf8ByteSize := by
  obtain ⟨before, after, hsource, rfl⟩ := h
  rw [← byteSize_toList, hsource, byteSize_append, byteSize_append]
  exact Nat.le_add_right _ _

/-- The span moved forward by a number of bytes. -/
def shift (n : Nat) (s : Span) : Span := ⟨s.start + n, s.stop + n⟩

lemma merge_shift (n : Nat) (a b : Span) : (a.shift n).merge (b.shift n) = (a.merge b).shift n := by
  simp only [merge, shift, Nat.add_min_add_right, Nat.add_max_add_right]

end Span

namespace Token

/-- The significant pieces as tokens, from an offset on. -/
def lay (offset : Nat) : List Piece → List Token
  | [] => []
  | p :: ps =>
    let stop := offset + byteSize p.text
    match p.kind? with
    | none => lay stop ps
    | some kind => ⟨kind, ⟨offset, stop⟩⟩ :: lay stop ps

def shift (n : Nat) (t : Token) : Token := ⟨t.kind, t.span.shift n⟩

@[simp] theorem lay_nil (offset : Nat) : lay offset [] = [] := rfl

lemma lay_gap {p : Piece} (h : p.kind? = none) (offset : Nat) (ps : List Piece) :
    lay offset (p :: ps) = lay (offset + byteSize p.text) ps := by
  simp only [lay, h]

lemma lay_token {p : Piece} {kind : TokenKind} (h : p.kind? = some kind) (offset : Nat)
    (ps : List Piece) :
    lay offset (p :: ps) = ⟨kind, ⟨offset, offset + byteSize p.text⟩⟩ ::
      lay (offset + byteSize p.text) ps := by
  simp only [lay, h]

lemma place_gap {p : Piece} (h : p.kind? = none) (offset : Nat) (ps : List Piece) :
    place offset (p :: ps) = place (offset + byteSize p.text) ps := by
  simp only [place, h]

lemma place_token {p : Piece} {kind : TokenKind} (h : p.kind? = some kind) (offset : Nat)
    (ps : List Piece) :
    place offset (p :: ps) = ⟨kind, ⟨offset, offset + byteSize p.text⟩⟩ ::
      place (offset + byteSize p.text) ps := by
  simp only [place, h]

theorem place_eq_lay (offset : Nat) (ps : List Piece) :
    place offset ps = lay offset ps ++
      [⟨.eof, .point (offset + byteSize (ps.flatMap Piece.text))⟩] := by
  induction ps generalizing offset with
  | nil => rfl
  | cons p ps ih =>
    rw [List.flatMap_cons, byteSize_append, ← Nat.add_assoc]
    cases h : p.kind? with
    | none => rw [place_gap h, lay_gap h, ih]
    | some kind => rw [place_token h, lay_token h, ih, List.cons_append]

theorem lay_append (offset : Nat) (ps qs : List Piece) :
    lay offset (ps ++ qs) =
      lay offset ps ++ lay (offset + byteSize (ps.flatMap Piece.text)) qs := by
  induction ps generalizing offset with
  | nil => simp
  | cons p ps ih =>
    rw [List.cons_append, List.flatMap_cons, byteSize_append, ← Nat.add_assoc]
    cases h : p.kind? with
    | none => rw [lay_gap h, lay_gap h, ih]
    | some kind => rw [lay_token h, lay_token h, ih, List.cons_append]

theorem lay_add (n offset : Nat) (ps : List Piece) :
    lay (offset + n) ps = (lay offset ps).map (shift n) := by
  induction ps generalizing offset with
  | nil => rfl
  | cons p ps ih =>
    have hstop : offset + n + byteSize p.text = offset + byteSize p.text + n := by omega
    cases h : p.kind? with
    | none => rw [lay_gap h, lay_gap h, hstop, ih]
    | some kind =>
      rw [lay_token h, lay_token h, hstop, ih, List.map_cons]
      rfl

theorem map_kind_lay (offset : Nat) (ps : List Piece) :
    (lay offset ps).map kind = ps.filterMap Piece.kind? := by
  induction ps generalizing offset with
  | nil => rfl
  | cons p ps ih =>
    cases h : p.kind? with
    | none => rw [lay_gap h, ih, List.filterMap_cons_none h]
    | some kind => rw [lay_token h, List.map_cons, ih, List.filterMap_cons_some h]

/-- A token is traced back to its piece, and so are the tokens on both sides of it. -/
theorem lay_eq_append_cons {offset : Nat} {ps : List Piece} {left right : List Token}
    {t : Token} (h : lay offset ps = left ++ t :: right) :
    ∃ before p after, ps = before ++ p :: after ∧ p.kind? = some t.kind ∧
      t.span = ⟨offset + byteSize (before.flatMap Piece.text),
        offset + byteSize (before.flatMap Piece.text) + byteSize p.text⟩ ∧
      lay offset before = left ∧ lay t.span.stop after = right := by
  induction ps generalizing offset left with
  | nil => simp at h
  | cons p ps ih =>
    cases hp : p.kind? with
    | none =>
      rw [lay_gap hp] at h
      obtain ⟨before, q, after, rfl, hq, hspan, hleft, hright⟩ := ih h
      refine ⟨p :: before, q, after, rfl, hq, ?_, ?_, hright⟩
      · rw [hspan, List.flatMap_cons, byteSize_append, Nat.add_assoc offset]
      · rw [lay_gap hp, hleft]
    | some kind =>
      rw [lay_token hp] at h
      cases left with
      | nil =>
        obtain ⟨rfl, rfl⟩ := List.cons.inj h
        exact ⟨[], p, ps, rfl, hp, by simp, rfl, rfl⟩
      | cons u left =>
        obtain ⟨rfl, htail⟩ := List.cons.inj h
        obtain ⟨before, q, after, rfl, hq, hspan, hleft, hright⟩ := ih htail
        refine ⟨p :: before, q, after, rfl, hq, ?_, ?_, hright⟩
        · rw [hspan, List.flatMap_cons, byteSize_append, Nat.add_assoc offset]
        · rw [lay_token hp, hleft]

/-- Neighbouring tokens are traced back to neighbouring pieces, from the start of the first
token to the end of the last one. -/
theorem lay_eq_append_append {offset : Nat} {ps : List Piece} {left right tail : List Token}
    {head : Token} (h : lay offset ps = left ++ (head :: tail) ++ right) :
    ∃ before between after, ps = before ++ between ++ after ∧
      lay (offset + byteSize (before.flatMap Piece.text)) between = head :: tail ∧
      head.span.start = offset + byteSize (before.flatMap Piece.text) ∧
      (tail.getLastD head).span.stop = offset + byteSize (before.flatMap Piece.text) +
        byteSize (between.flatMap Piece.text) := by
  rw [List.append_assoc, List.cons_append] at h
  obtain ⟨before, p, after, rfl, hp, hspan, -, hright⟩ := lay_eq_append_cons h
  rcases List.eq_nil_or_concat tail with rfl | ⟨middle, last, rfl⟩
  · refine ⟨before, [p], after, by simp, ?_, by rw [hspan], ?_⟩
    · rw [lay_token hp, lay_nil, ← hspan]
    · simp [hspan]
  · rw [List.concat_eq_append, List.append_assoc, List.singleton_append] at hright
    obtain ⟨inner, q, after, rfl, hq, hlast, hmiddle, -⟩ := lay_eq_append_cons hright
    have hstart : head.span.start = offset + byteSize (before.flatMap Piece.text) := by
      rw [hspan]
    have hstop : head.span.stop = offset + byteSize (before.flatMap Piece.text) +
        byteSize p.text := by rw [hspan]
    refine ⟨before, p :: inner ++ [q], after, by simp, ?_, hstart, ?_⟩
    · rw [List.cons_append, lay_token hp, ← hstop, ← hstart, lay_append, hmiddle, lay_token hq,
        lay_nil, ← hlast, List.concat_eq_append]
    · simp only [List.concat_eq_append, List.getLastD_concat, hlast, hstop, List.cons_append,
        List.flatMap_cons, List.flatMap_append, List.flatMap_nil, byteSize_append, byteSize_nil]
      omega

lemma exists_piece_of_mem_lay {offset : Nat} {ps : List Piece} {t : Token}
    (h : t ∈ lay offset ps) :
    ∃ before p after, ps = before ++ p :: after ∧ p.kind? = some t.kind ∧
      t.span = ⟨offset + byteSize (before.flatMap Piece.text),
        offset + byteSize (before.flatMap Piece.text) + byteSize p.text⟩ := by
  obtain ⟨left, right, hlay⟩ := List.append_of_mem h
  obtain ⟨before, p, after, hps, hp, hspan, -, -⟩ := lay_eq_append_cons hlay
  exact ⟨before, p, after, hps, hp, hspan⟩

lemma le_start_of_mem_lay {offset : Nat} {ps : List Piece} {t : Token}
    (h : t ∈ lay offset ps) : offset ≤ t.span.start := by
  obtain ⟨before, p, after, -, -, hspan⟩ := exists_piece_of_mem_lay h
  rw [hspan]
  exact Nat.le_add_right _ _

lemma stop_le_of_mem_lay {offset : Nat} {ps : List Piece} {t : Token}
    (h : t ∈ lay offset ps) : t.span.stop ≤ offset + byteSize (ps.flatMap Piece.text) := by
  obtain ⟨before, p, after, rfl, -, hspan⟩ := exists_piece_of_mem_lay h
  rw [hspan]
  simp only [List.flatMap_append, List.flatMap_cons, byteSize_append]
  omega

lemma le_start_of_mem_place {offset : Nat} {ps : List Piece} {t : Token}
    (h : t ∈ place offset ps) : offset ≤ t.span.start := by
  rw [place_eq_lay, List.mem_append] at h
  rcases h with h | h
  · exact le_start_of_mem_lay h
  · rw [List.mem_singleton.mp h]
    exact Nat.le_add_right _ _

/-- Tokens follow each other in the text and do not overlap. -/
theorem pairwise_lay (offset : Nat) (ps : List Piece) :
    (lay offset ps).Pairwise fun t u => t.span.stop ≤ u.span.start := by
  induction ps generalizing offset with
  | nil => exact List.Pairwise.nil
  | cons p ps ih =>
    cases h : p.kind? with
    | none =>
      rw [lay_gap h]
      exact ih _
    | some kind =>
      rw [lay_token h, List.pairwise_cons]
      exact ⟨fun u hu => le_start_of_mem_lay hu, ih _⟩

/-- A token of a text is the piece below its span, in front of a text that does not make it
longer. -/
lemma exists_text_of_mem_lay {cs : List Char} {t : Token} (h : t ∈ lay 0 (Piece.split cs)) :
    ∃ (before : List Char) (p : Piece) (rest : List Char), cs = before ++ p.text ++ rest ∧
      t.span = ⟨byteSize before, byteSize before + byteSize p.text⟩ ∧
      p.kind? = some t.kind ∧ p.Valid ∧ p.goesOn rest = false := by
  obtain ⟨before, p, after, hps, hp, hspan⟩ := exists_piece_of_mem_lay h
  obtain ⟨hcut, htext⟩ := (Piece.split_eq_iff _ _).mp hps
  cases hcut.of_append.2 with
  | cons hvalid hrest _ =>
  rw [List.flatMap_append, List.flatMap_cons, ← List.append_assoc] at htext
  exact ⟨before.flatMap Piece.text, p, after.flatMap Piece.text, htext.symm,
    by simpa using hspan, hp, hvalid, hrest⟩

/-- The span of a token covers the text of its piece. -/
lemma covers_of_mem_lay {source : String} {t : Token}
    (h : t ∈ lay 0 (Piece.split source.toList)) :
    ∃ (p : Piece) (rest : List Char), p.kind? = some t.kind ∧ p.Valid ∧ p.goesOn rest = false ∧
      t.span.Covers source.toList p.text ∧
      t.span.stop + byteSize rest = source.utf8ByteSize := by
  obtain ⟨before, p, rest, hsource, hspan, hp, hvalid, hrest⟩ := exists_text_of_mem_lay h
  refine ⟨p, rest, hp, hvalid, hrest, ⟨before, rest, hsource, hspan⟩, ?_⟩
  rw [← byteSize_toList, hsource, hspan]
  simp only [byteSize_append]

/-- The kinds of the tokens of a text are those that can be written. -/
lemma isPrintable_of_mem_lay {cs : List Char} {t : Token} (h : t ∈ lay 0 (Piece.split cs)) :
    t.kind.isPrintable = true := by
  obtain ⟨-, p, -, -, -, hp, hvalid, -⟩ := exists_text_of_mem_lay h
  exact (hvalid.kind_cases hp).1

end Token

/-- The tokens of a source are its pieces as tokens, and the end token. -/
theorem lex_eq_lay (source : String) :
    lex source = Token.lay 0 (Piece.split source.toList) ++
      [⟨.eof, .point source.utf8ByteSize⟩] := by
  rw [lex_eq_place, Token.place_eq_lay, Piece.flatMap_text_split, Nat.zero_add, byteSize_toList]

/-- The kinds of a source are those of its significant pieces, and the end. -/
lemma map_kind_lex (source : String) :
    (lex source).map Token.kind = (Piece.split source.toList).filterMap Piece.kind? ++ [.eof] := by
  rw [lex_eq_lay, List.map_append, Token.map_kind_lay]
  rfl

end Scaffold
