import Scaffold.Proofs.Lookahead
import Scaffold.Proofs.LosslessLexing
import Scaffold.Skeleton.Render

/-!
# Characters that change nothing

A blank or a character outside of the language can be put between any two pieces of
a source. The tokens behind it move, and nothing else changes: neither their kinds
nor the declarations nor any skeleton. A dot is left out, since it can join words and
belong to a numeral.
-/
namespace Scaffold

/-- The token as it lies after bytes were put in at an offset. What ends there or before
stays in its place, all other tokens and the end of the input move. -/
def Token.makeRoom (offset size : Nat) (t : Token) : Token :=
  { t with span := if t.kind ≠ .eof ∧ t.span.stop ≤ offset then t.span else t.span.shift size }

namespace Token

@[simp] lemma makeRoom_kind (offset size : Nat) (t : Token) :
    (t.makeRoom offset size).kind = t.kind := rfl

lemma makeRoom_of_stop_le {t : Token} {offset : Nat} (hne : t.kind ≠ .eof)
    (h : t.span.stop ≤ offset) (size : Nat) : t.makeRoom offset size = t := by
  simp [makeRoom, hne, h]

lemma makeRoom_of_lt_stop {t : Token} {offset : Nat} (h : t.kind ≠ .eof → offset < t.span.stop)
    (size : Nat) : t.makeRoom offset size = t.shift size := by
  have hnot : ¬(t.kind ≠ .eof ∧ t.span.stop ≤ offset) := by
    rintro ⟨hne, hle⟩
    have hlt := h hne
    omega
  simp only [makeRoom, if_neg hnot, shift]

end Token

namespace Piece

lemma not_isBlank_of_mem_chars {o : Operator} {c : Char} (h : c ∈ o.chars) :
    Text.isBlank c = false := by
  have hall : o.chars.all (fun d => !Text.isBlank d) = true := by cases o <;> decide
  simpa using List.all_eq_true.mp hall c h

lemma Insignificant.separate_cons {c : Char} (h : Insignificant c) (hdot : c ≠ '.')
    (cs : List Char) : Separate (c :: cs) := by
  rcases h with ⟨hblank, -⟩ | ⟨-, -, halpha, hdigit, hunderscore, hoperator, -⟩
  · refine Piece.separate_cons ?_ hdot ?_ cs
    · by_contra hword
      rw [isBlank_eq_false_of_continues (by simpa using hword)] at hblank
      cases hblank
    · intro o hmem
      rw [not_isBlank_of_mem_chars hmem] at hblank
      cases hblank
  · have hword : Word.continues c = false := by
      simp [Word.continues, Char.isAlphanum, halpha, hdigit, hunderscore]
    exact Piece.separate_cons hword hdot hoperator cs

/-- An offset that lies inside of no token lies between two pieces. -/
lemma exists_append_of_not_inside {ps : List Piece} (hvalid : ∀ p ∈ ps, p.Valid)
    {before after : List Char} (htext : ps.flatMap text = before ++ after) (offset : Nat)
    (hinside : ∀ t ∈ Token.lay offset ps, ¬(t.span.start < offset + byteSize before ∧
      offset + byteSize before < t.span.stop)) :
    ∃ qs rs, ps = qs ++ rs ∧ qs.flatMap text = before := by
  induction ps generalizing before offset with
  | nil =>
    obtain ⟨rfl, -⟩ := List.append_eq_nil_iff.mp htext.symm
    exact ⟨[], [], rfl, rfl⟩
  | cons p ps ih =>
    obtain ⟨hp, hps⟩ := List.forall_mem_cons.mp hvalid
    rw [List.flatMap_cons] at htext
    rcases List.append_eq_append_iff.mp htext with ⟨more, rfl, hmore⟩ | ⟨more, hp', hmore⟩
    · have hrest : ∀ t ∈ Token.lay (offset + byteSize p.text) ps,
          t ∈ Token.lay offset (p :: ps) := by
        intro t ht
        cases hkind : p.kind? with
        | none => rwa [Token.lay_gap hkind]
        | some kind => rw [Token.lay_token hkind]; exact List.mem_cons_of_mem _ ht
      obtain ⟨qs, rs, rfl, hqs⟩ := ih hps hmore (offset + byteSize p.text) fun t ht => by
        simpa [Nat.add_assoc] using hinside t (hrest t ht)
      exact ⟨p :: qs, rs, rfl, by rw [List.flatMap_cons, hqs]⟩
    · by_cases hbefore : before = []
      · exact ⟨[], p :: ps, rfl, by rw [hbefore]; rfl⟩
      by_cases hempty : more = []
      · exact ⟨[p], ps, rfl, by simp [hp', hempty]⟩
      have hpos := byteSize_pos hbefore
      have hpos' := byteSize_pos hempty
      cases hkind : p.kind? with
      | none =>
        obtain ⟨c, rfl, -⟩ := hp.eq_gap hkind
        have hlength := congrArg List.length hp'
        have hlength₁ := List.length_pos_iff.mpr hbefore
        have hlength₂ := List.length_pos_iff.mpr hempty
        simp only [List.length_append, List.length_singleton] at hlength
        omega
      | some kind =>
        refine absurd ?_ (hinside ⟨kind, ⟨offset, offset + byteSize p.text⟩⟩ ?_)
        · rw [hp', byteSize_append]
          simp only
          omega
        · rw [Token.lay_token hkind]
          exact List.mem_cons_self

end Piece

/-- Reading looks at the kinds of the tokens only. -/
lemma nodes_parse_map {f : Token → Token} (hf : ∀ t, (f t).kind = t.kind) (ts : List Token) :
    (parse (ts.map f)).nodes = (parse ts).nodes := by
  simp only [parse, Program.nodes, Segment.split_map hf, List.filterMap_map, List.map_filterMap]
  congr 1
  funext s
  simp only [Function.comp_apply, Segment.declaration?, Option.map_map]
  rfl

/-- A skeleton does not depend on where the declarations were found. -/
lemma Program.render_congr {p q : Program} (h : p.nodes = q.nodes) (t : Target) (style : Style) :
    p.render t style = q.render t style := by
  unfold render Target.skeleton Target.body includes entryPoint? functions
  rw [h]

/-- Two texts that meet between two tokens are cut one after the other. -/
lemma split_append_of_not_inside {before after : String}
    (hinside : ∀ t ∈ lex (before ++ after), ¬(t.span.start < before.utf8ByteSize ∧
      before.utf8ByteSize < t.span.stop)) :
    Piece.split (before ++ after).toList =
      Piece.split before.toList ++ Piece.split after.toList := by
  have hcut := ((Piece.split_eq_iff (before ++ after).toList _).mp rfl).1
  have htext := Piece.flatMap_text_split (before ++ after).toList
  rw [String.toList_append] at hcut htext ⊢
  obtain ⟨qs, rs, hsplit, hqs⟩ := Piece.exists_append_of_not_inside hcut.valid_of_mem htext 0
    fun t ht => by
      rw [Nat.zero_add, byteSize_toList]
      exact hinside t (by rw [lex_eq_lay, String.toList_append]; exact List.mem_append_left _ ht)
  have hrs : rs.flatMap Piece.text = after.toList := by
    rw [hsplit, List.flatMap_append, hqs] at htext
    exact List.append_cancel_left htext
  rw [hsplit] at hcut ⊢
  obtain ⟨hcutq, hcutr⟩ := hcut.of_append
  rw [(Piece.split_eq_iff _ _).mpr ⟨hcutq, hqs⟩, (Piece.split_eq_iff _ _).mpr ⟨hcutr, hrs⟩]

lemma lex_insignificant_append {c : Char} (hc : Piece.Insignificant c) (after : String) :
    lex (String.singleton c ++ after) = (lex after).map (Token.shift c.utf8Size) := by
  have hone : Piece.split (String.singleton c).toList = [⟨[c], none⟩] := by
    rw [Piece.split_eq_iff]
    exact ⟨Piece.Cut.cons (Piece.Valid.gap hc) rfl Piece.Cut.nil, by simp⟩
  have hsplit : Piece.split (String.singleton c ++ after).toList =
      Piece.split (String.singleton c).toList ++ Piece.split after.toList := by
    rw [hone, String.toList_append, String.toList_singleton, List.singleton_append,
      Piece.split_cons, Piece.first_gap hc]
    rfl
  rw [lex_append hsplit, hone, Token.lay_gap rfl, String.utf8ByteSize_singleton]
  rfl

/-- An insignificant character between two tokens moves those behind it. -/
lemma lex_insert {before after : String} {c : Char} (hc : Piece.Insignificant c)
    (hdot : c ≠ '.') (hquotes : Even (before.toList.count '\"'))
    (hinside : ∀ t ∈ lex (before ++ after), ¬(t.span.start < before.utf8ByteSize ∧
      before.utf8ByteSize < t.span.stop)) :
    lex (before ++ String.singleton c ++ after) =
      (lex (before ++ after)).map (Token.makeRoom before.utf8ByteSize c.utf8Size) := by
  have hseparate : Piece.Separate (String.singleton c ++ after).toList := by
    rw [String.toList_append, String.toList_singleton]
    exact hc.separate_cons hdot _
  have hfront : (Token.lay 0 (Piece.split before.toList)).map
      (Token.makeRoom before.utf8ByteSize c.utf8Size) = Token.lay 0 (Piece.split before.toList) := by
    refine (List.map_congr_left fun t ht => ?_).trans (List.map_id _)
    have hstop := Token.stop_le_of_mem_lay ht
    rw [Piece.flatMap_text_split, Nat.zero_add, byteSize_toList] at hstop
    exact Token.makeRoom_of_stop_le (Token.kind_ne_eof_of_mem_lay ht) hstop _
  have hback : ∀ t ∈ lex after, (t.shift before.utf8ByteSize).makeRoom before.utf8ByteSize
      c.utf8Size = (t.shift c.utf8Size).shift before.utf8ByteSize := by
    intro t ht
    rw [Token.makeRoom_of_lt_stop, Token.shift_shift, Token.shift_shift, Nat.add_comm]
    intro hne
    have hpos := Token.nonempty_of_mem_lay (mem_lay_of_mem_lex ht hne)
    simp only [Token.shift, Span.shift]
    omega
  rw [String.append_assoc, lex_append_eq_lay hquotes hseparate, lex_insignificant_append hc,
    lex_append (split_append_of_not_inside hinside), List.map_append, hfront, List.map_map,
    List.map_map]
  exact congrArg _ (List.map_congr_left fun t ht => (hback t ht).symm)

/-- A blank or a character outside of the language, the dot apart, can be put in anywhere
outside of tokens and of unclosed strings. The tokens behind it move by its size, and neither the
declarations nor any skeleton changes. -/
theorem compile_insert {before after : String} {c : Char} (hc : Piece.Insignificant c)
    (hdot : c ≠ '.') (hquotes : Even (before.toList.count '\"'))
    (hinside : ∀ t ∈ lex (before ++ after), ¬(t.span.start < before.utf8ByteSize ∧
      before.utf8ByteSize < t.span.stop)) :
    lex (before ++ String.singleton c ++ after) =
        (lex (before ++ after)).map (Token.makeRoom before.utf8ByteSize c.utf8Size) ∧
      (parse (lex (before ++ String.singleton c ++ after))).nodes =
        (parse (lex (before ++ after))).nodes ∧
      ∀ target style, (compile (before ++ String.singleton c ++ after) target style).output =
        (compile (before ++ after) target style).output := by
  have hlex := lex_insert hc hdot hquotes hinside
  have hnodes : (parse (lex (before ++ String.singleton c ++ after))).nodes =
      (parse (lex (before ++ after))).nodes := by
    rw [hlex]
    exact nodes_parse_map (fun t => Token.makeRoom_kind _ _ t) _
  exact ⟨hlex, hnodes, fun target style => Program.render_congr hnodes target style⟩

/-- A character of three bytes between a dot that leads nowhere and a numeral. -/
theorem compile_insert_after_dot :
    Piece.Insignificant '€' ∧ Even ("int a.".toList.count '\"') ∧
      lex "int a.€1 = \"x" = [⟨.keyword (.type .int), ⟨0, 3⟩⟩, ⟨.ident "a", ⟨4, 5⟩⟩,
        ⟨.number "1", ⟨9, 10⟩⟩, ⟨.operator .eq, ⟨11, 12⟩⟩, ⟨.string "x", ⟨13, 15⟩⟩,
        ⟨.eof, ⟨15, 15⟩⟩] ∧
      ∀ target style, (compile "int a.€1 = \"x" target style).output =
        (compile "int a.1 = \"x" target style).output := by
  have hc : Piece.Insignificant '€' :=
    Piece.insignificant_of_ofChar?_eq_none (by decide) (by decide) (by decide) (by decide) rfl rfl
  have hquotes : Even ("int a.".toList.count '\"') := by decide +kernel
  have hinside : ∀ t ∈ lex ("int a." ++ "1 = \"x"), ¬(t.span.start < "int a.".utf8ByteSize ∧
      "int a.".utf8ByteSize < t.span.stop) := by decide +kernel
  obtain ⟨hlex, -, houtput⟩ := compile_insert hc (by decide) hquotes hinside
  refine ⟨hc, hquotes, hlex.trans ?_, houtput⟩
  decide +kernel

end Scaffold
