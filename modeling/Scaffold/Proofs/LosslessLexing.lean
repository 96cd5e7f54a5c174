import Scaffold.Proofs.Placement

/-!
# No character is lost

Each token stands for the text below its span, and what lies below no span is
insignificant. The source can be put together again from its tokens and the
skipped characters alone.
-/
namespace Scaffold

def Span.contains (s : Span) (offset : Nat) : Bool := s.start ≤ offset && offset < s.stop

namespace Token

/-- The characters of a text that start below no token. -/
def skipped (ts : List Token) (offset : Nat) : List Char → List Char
  | [] => []
  | c :: cs =>
    if ts.any (·.span.contains offset) then skipped ts (offset + c.utf8Size) cs
    else c :: skipped ts (offset + c.utf8Size) cs

/-- The source text of a token; a string has its closing quote if the span has room for it. -/
def sourceText (t : Token) : List Char :=
  match t.kind with
  | .string s =>
    if t.span.start + byteSize s.toList + 2 = t.span.stop then '\"' :: s.toList ++ ['\"']
    else '\"' :: s.toList
  | kind => kind.write

/-- Writes the tokens at their offsets and fills what is left free with skipped characters. -/
def restore (offset : Nat) : List Token → List Char → List Char
  | [], gaps => gaps
  | t :: ts, [] => t.sourceText ++ restore t.span.stop ts []
  | t :: ts, c :: gaps =>
    if offset < t.span.start then c :: restore (offset + c.utf8Size) (t :: ts) gaps
    else t.sourceText ++ restore t.span.stop ts (c :: gaps)
termination_by ts gaps => ts.length + gaps.length

/-- What the source has below a token: a string between quotes, where only the end of the
source can stand for the second one, and the lexeme for all other tokens. -/
def Reads (source : String) (t : Token) : Prop :=
  match t.kind with
  | .string s => '\"' ∉ s.toList ∧ (t.span.slice source = "\"" ++ s ++ "\"" ∨
      (t.span.slice source = "\"" ++ s ∧ t.span.stop = source.utf8ByteSize))
  | kind => kind.lexeme? = some (t.span.slice source)

end Token

/-- Tokens that keep all of a source. -/
structure Lossless (source : String) (ts : List Token) : Prop where
  /-- There is one end token. It is the last one and lies behind the whole source. -/
  ends : ∃ front, ts = front ++ [⟨.eof, .point source.utf8ByteSize⟩] ∧
    ∀ t ∈ front, t.kind ≠ .eof
  nonempty : ∀ t ∈ ts, t.kind ≠ .eof → t.span.start < t.span.stop
  onBoundaries : ∀ t ∈ ts, t.span.OnBoundaries source ∧ t.span.stop ≤ source.utf8ByteSize
  ordered : ts.Pairwise fun t u => t.span.stop ≤ u.span.start
  reads : ∀ t ∈ ts, t.kind ≠ .eof → t.Reads source
  insignificant : ∀ c ∈ Token.skipped ts 0 source.toList, Piece.Insignificant c
  restored : Token.restore 0 ts (Token.skipped ts 0 source.toList) = source.toList

namespace Token

/-- The text of the gaps between the significant pieces. -/
def gaps (ps : List Piece) : List Char := (ps.filter (·.kind?.isNone)).flatMap Piece.text

lemma gaps_gap {p : Piece} (h : p.kind? = none) (ps : List Piece) :
    gaps (p :: ps) = p.text ++ gaps ps := by
  simp [gaps, h]

lemma gaps_token {p : Piece} {kind : TokenKind} (h : p.kind? = some kind) (ps : List Piece) :
    gaps (p :: ps) = gaps ps := by
  simp [gaps, h]

/-- Nothing is skipped below a token. -/
lemma skipped_of_covered {ts : List Token} {t : Token} (ht : t ∈ ts) {offset : Nat}
    {cs : List Char} (hstart : t.span.start ≤ offset) (hstop : offset + byteSize cs ≤ t.span.stop)
    (more : List Char) :
    skipped ts offset (cs ++ more) = skipped ts (offset + byteSize cs) more := by
  induction cs generalizing offset with
  | nil => simp
  | cons c cs ih =>
    have hc := c.utf8Size_pos
    rw [byteSize_cons] at hstop
    have hany : ts.any (·.span.contains offset) = true := by
      rw [List.any_eq_true]
      refine ⟨t, ht, ?_⟩
      simp only [Span.contains, Bool.and_eq_true, decide_eq_true_eq]
      omega
    rw [List.cons_append, skipped, if_pos hany, ih (by omega) (by omega), byteSize_cons,
      Nat.add_assoc]

/-- A character is skipped where all tokens lie before or behind it. -/
lemma skipped_of_free {ts : List Token} {offset : Nat} {c : Char}
    (h : ∀ t ∈ ts, t.span.stop ≤ offset ∨ offset < t.span.start) (cs : List Char) :
    skipped ts offset (c :: cs) = c :: skipped ts (offset + c.utf8Size) cs := by
  have hany : ts.any (·.span.contains offset) = false := by
    rw [List.any_eq_false]
    intro t ht
    have hfree := h t ht
    simp only [Span.contains, Bool.and_eq_true, decide_eq_true_eq]
    omega
  rw [skipped, if_neg (by simp [hany])]

/-- From the offset of a piece on, exactly the gaps are skipped. -/
lemma skipped_place {ps : List Piece} (hvalid : ∀ p ∈ ps, p.Valid) {offset : Nat}
    {done : List Token} (hdone : ∀ t ∈ done, t.span.stop ≤ offset) :
    skipped (done ++ place offset ps) offset (ps.flatMap Piece.text) = gaps ps := by
  induction ps generalizing offset done with
  | nil => rfl
  | cons p ps ih =>
    obtain ⟨hp, hps⟩ := List.forall_mem_cons.mp hvalid
    rw [List.flatMap_cons]
    cases hkind : p.kind? with
    | none =>
      obtain ⟨c, rfl, -⟩ := hp.eq_gap hkind
      have hc := c.utf8Size_pos
      have hsize : byteSize [c] = c.utf8Size := by simp
      rw [place_gap hkind, gaps_gap hkind, hsize]
      have hfree : ∀ t ∈ done ++ place (offset + c.utf8Size) ps,
          t.span.stop ≤ offset ∨ offset < t.span.start := by
        intro t ht
        rcases List.mem_append.mp ht with ht | ht
        · exact Or.inl (hdone t ht)
        · have hstart := le_start_of_mem_place ht
          exact Or.inr (by omega)
      rw [List.singleton_append, skipped_of_free hfree, ih hps (fun t ht => ?_)]
      · rfl
      · have hstop := hdone t ht
        omega
    | some kind =>
      rw [place_token hkind, gaps_token hkind]
      let t : Token := ⟨kind, ⟨offset, offset + byteSize p.text⟩⟩
      have hmem : t ∈ done ++ t :: place (offset + byteSize p.text) ps := by simp
      rw [skipped_of_covered hmem (Nat.le_refl _) (Nat.le_refl _)]
      rw [List.append_cons]
      refine ih hps (fun u hu => ?_)
      rcases List.mem_append.mp hu with hu | hu
      · have hstop := hdone u hu
        omega
      · rw [List.mem_singleton.mp hu]

/-- A token alone tells the text of its piece. -/
lemma sourceText_eq {p : Piece} (hp : p.Valid) {t : Token} (hkind : p.kind? = some t.kind)
    (hsize : t.span.stop = t.span.start + byteSize p.text) : t.sourceText = p.text := by
  obtain ⟨kind, start, stop⟩ := t
  simp only at hkind hsize
  have hone : '\"'.utf8Size = 1 := by decide
  obtain ⟨-, htext | ⟨s, hs, htext⟩⟩ := hp.kind_cases hkind
  · cases kind with
    | string s =>
      have hquotes : byteSize p.text = byteSize s.toList + 2 := by
        rw [htext]
        simp only [TokenKind.write, List.cons_append, byteSize_cons, byteSize_append, byteSize_nil,
          hone]
        omega
      simp only [sourceText]
      rw [if_pos (by omega), htext]
      rfl
    | _ => exact htext.symm
  · subst hs
    have hquote : byteSize p.text = byteSize s.toList + 1 := by
      rw [htext, byteSize_cons, hone, Nat.add_comm]
    simp only [sourceText]
    rw [if_neg (by omega), htext]

lemma restore_token (kind : TokenKind) (offset stop : Nat) (ts : List Token) (cs : List Char) :
    restore offset (⟨kind, ⟨offset, stop⟩⟩ :: ts) cs =
      sourceText ⟨kind, ⟨offset, stop⟩⟩ ++ restore stop ts cs := by
  cases cs with
  | nil => rw [restore]
  | cons c cs => rw [restore, if_neg (Nat.lt_irrefl _)]

/-- Tokens and gaps, put together again from the offset of a piece on. -/
lemma restore_place {ps : List Piece} (hvalid : ∀ p ∈ ps, p.Valid) (offset : Nat) :
    restore offset (place offset ps) (gaps ps) = ps.flatMap Piece.text := by
  induction ps generalizing offset with
  | nil =>
    change restore offset [⟨.eof, ⟨offset, offset⟩⟩] [] = []
    rw [restore_token, restore]
    rfl
  | cons p ps ih =>
    obtain ⟨hp, hps⟩ := List.forall_mem_cons.mp hvalid
    rw [List.flatMap_cons]
    cases hkind : p.kind? with
    | none =>
      obtain ⟨c, rfl, -⟩ := hp.eq_gap hkind
      have hc := c.utf8Size_pos
      have hsize : byteSize [c] = c.utf8Size := by simp
      have htail := ih hps (offset + c.utf8Size)
      rw [place_gap hkind, gaps_gap hkind, hsize]
      cases hplace : place (offset + c.utf8Size) ps with
      | nil => simp [place_eq_lay] at hplace
      | cons t ts =>
        have hstart := le_start_of_mem_place (t := t) (by rw [hplace]; simp)
        rw [hplace] at htail
        rw [List.singleton_append, restore, if_pos (by omega), htail]
        rfl
    | some kind =>
      rw [place_token hkind, gaps_token hkind, restore_token,
        sourceText_eq hp hkind rfl, ih hps]

lemma insignificant_of_mem_gaps {ps : List Piece} (hvalid : ∀ p ∈ ps, p.Valid) :
    ∀ c ∈ gaps ps, Piece.Insignificant c := by
  intro c hc
  obtain ⟨p, hp, hmem⟩ := List.mem_flatMap.mp hc
  obtain ⟨hps, hnone⟩ := List.mem_filter.mp hp
  obtain ⟨d, rfl, hd⟩ := (hvalid p hps).eq_gap (by simpa using hnone)
  rw [List.mem_singleton.mp hmem]
  exact hd

/-- The text below a token is its lexeme, or a string between its quotes. -/
lemma reads_of_mem_lay {source : String} {t : Token}
    (h : t ∈ lay 0 (Piece.split source.toList)) : t.Reads source := by
  obtain ⟨p, rest, hkind, hvalid, hrest, hcovers, hstop⟩ := covers_of_mem_lay h
  have hslice := hcovers.slice_eq
  obtain ⟨hprintable, htext | ⟨s, hs, htext⟩⟩ := hvalid.kind_cases hkind
  · rw [htext] at hslice
    unfold Reads
    split
    · rename_i s hs
      rw [hs] at hslice hprintable
      refine ⟨by simpa [TokenKind.isPrintable] using hprintable, Or.inl ?_⟩
      rw [hslice]
      apply String.toList_inj.mp
      simp [TokenKind.write]
    · rename_i hstring
      rw [hslice]
      obtain ⟨kind, span⟩ := t
      cases kind with
      | string s => exact absurd rfl (hstring s)
      | eof => simp [TokenKind.isPrintable] at hprintable
      | _ => simp [TokenKind.write, TokenKind.lexeme?]
  · have hnil : rest = [] := by simpa [Piece.goesOn, hkind, hs, htext] using hrest
    have hquote : '\"' ∉ s.toList := by simpa [TokenKind.isPrintable, hs] using hprintable
    simp only [Reads, hs]
    refine ⟨hquote, Or.inr ⟨?_, ?_⟩⟩
    · rw [hslice, htext]
      apply String.toList_inj.mp
      simp
    · rw [← hstop, hnil, byteSize_nil, Nat.add_zero]

lemma nonempty_of_mem_lay {source : String} {t : Token}
    (h : t ∈ lay 0 (Piece.split source.toList)) : t.span.start < t.span.stop := by
  obtain ⟨p, rest, -, hvalid, -, ⟨before, after, -, hspan⟩, -⟩ := covers_of_mem_lay h
  have hpos := byteSize_pos hvalid.text_ne_nil
  rw [hspan]
  simp only
  omega

lemma kind_ne_eof_of_mem_lay {source : String} {t : Token}
    (h : t ∈ lay 0 (Piece.split source.toList)) : t.kind ≠ .eof := by
  intro heof
  have hprintable := isPrintable_of_mem_lay h
  simp [heof, TokenKind.isPrintable] at hprintable

end Token

lemma skipped_lex (source : String) :
    Token.skipped (lex source) 0 source.toList = Token.gaps (Piece.split source.toList) := by
  have hcut := ((Piece.split_eq_iff source.toList _).mp rfl).1
  have hskipped := Token.skipped_place hcut.valid_of_mem
    (by simp : ∀ t ∈ ([] : List Token), t.span.stop ≤ 0)
  rw [Piece.flatMap_text_split, List.nil_append, ← lex_eq_place] at hskipped
  exact hskipped

lemma mem_lay_of_mem_lex {source : String} {t : Token} (ht : t ∈ lex source)
    (hne : t.kind ≠ .eof) : t ∈ Token.lay 0 (Piece.split source.toList) := by
  rw [lex_eq_lay, List.mem_append, List.mem_singleton] at ht
  rcases ht with ht | rfl
  · exact ht
  · exact absurd rfl hne

lemma onBoundaries_of_mem_lex {source : String} {t : Token} (ht : t ∈ lex source) :
    t.span.OnBoundaries source ∧ t.span.stop ≤ source.utf8ByteSize := by
  rw [lex_eq_lay, List.mem_append, List.mem_singleton] at ht
  rcases ht with ht | rfl
  · obtain ⟨p, rest, -, -, -, hcovers, -⟩ := Token.covers_of_mem_lay ht
    exact ⟨hcovers.onBoundaries, hcovers.stop_le⟩
  · have hend : source.rawEndPos.IsValid source := String.Pos.Raw.isValid_rawEndPos
    exact ⟨⟨hend, hend⟩, Nat.le_refl _⟩

/-- Every source can be lexed, and its tokens lose nothing of it. -/
theorem lex_lossless (source : String) : Lossless source (lex source) := by
  have hvalid := ((Piece.split_eq_iff source.toList _).mp rfl).1.valid_of_mem
  constructor
  case ends =>
    exact ⟨_, lex_eq_lay source, fun t ht => Token.kind_ne_eof_of_mem_lay ht⟩
  case nonempty =>
    intro t ht hne
    exact Token.nonempty_of_mem_lay (mem_lay_of_mem_lex ht hne)
  case onBoundaries =>
    intro t ht
    exact onBoundaries_of_mem_lex ht
  case ordered =>
    rw [lex_eq_lay, List.pairwise_append]
    refine ⟨Token.pairwise_lay 0 _, List.pairwise_singleton _ _, ?_⟩
    intro t ht u hu
    rw [List.mem_singleton.mp hu]
    exact (onBoundaries_of_mem_lex (by rw [lex_eq_lay]; simp [ht])).2
  case reads =>
    intro t ht hne
    exact Token.reads_of_mem_lay (mem_lay_of_mem_lex ht hne)
  case insignificant =>
    rw [skipped_lex]
    exact Token.insignificant_of_mem_gaps hvalid
  case restored =>
    rw [skipped_lex, lex_eq_place, Token.restore_place hvalid, Piece.flatMap_text_split]

end Scaffold
