import Scaffold.Proofs.Lookahead
import Scaffold.Proofs.LosslessLexing
import Scaffold.Proofs.SpanFaithfulness

/-!
# Text added at the end

Appended text can change the last token of a source, and with it the last
declaration, but no declaration before that one. Text that begins with no part of a
word, a numeral or an operator leaves the tokens as they are, if no string is open.
Behind a newline it changes nothing at all: the two texts are read one after the
other, if neither a string nor a parameter list is left open.
-/
namespace Scaffold

namespace Token

/-- Appended text leaves all tokens as they are except the last one. -/
lemma dropLast_lay_prefix (cs ds : List Char) :
    (lay 0 (Piece.split cs)).dropLast <+: lay 0 (Piece.split (cs ++ ds)) := by
  rcases List.eq_nil_or_concat (lay 0 (Piece.split cs)) with hnil | ⟨left, t, hlay⟩
  · rw [hnil]
    exact List.nil_prefix
  · rw [List.concat_eq_append] at hlay
    obtain ⟨before, p, after, hpieces, hkind, -, hleft, -⟩ := lay_eq_append_cons hlay
    rw [hlay, List.dropLast_concat, ← hleft,
      Piece.split_append_of_token hpieces (by simp [hkind]), lay_append]
    exact List.prefix_append _ _

/-- Every opening parenthesis has a closing one somewhere behind it. -/
def parensClosed : List Token → Bool
  | [] => true
  | t :: ts => (t.kind ≠ .delimiter .lparen || ts.any (·.kind = .delimiter .rparen)) &&
      parensClosed ts

lemma parensClosed_of_append (ts : List Token) {us : List Token}
    (h : parensClosed (ts ++ us) = true) : parensClosed us = true := by
  induction ts with
  | nil => exact h
  | cons t ts ih =>
    rw [List.cons_append, parensClosed, Bool.and_eq_true] at h
    exact ih h.2

end Token

/-- Two texts are lexed one after the other where the first one leaves no string open and the
second one begins with no part of a word, a numeral or an operator. -/
theorem lex_append_of_separate {a b : String} (hquotes : Even (a.toList.count '\"'))
    (hb : Piece.Separate b.toList) :
    lex (a ++ b) = (lex a).dropLast ++ (lex b).map (Token.shift a.utf8ByteSize) := by
  rw [lex_append_eq_lay hquotes hb, lex_eq_lay a, List.dropLast_concat]

/-- A dot that leads nowhere in front of a quote that is never closed. -/
theorem lex_append_of_separate_quote :
    Even ("\"é\" x.".toList.count '\"') ∧ Piece.Separate "\"=5".toList ∧
      lex "\"é\" x.\"=5" = [⟨.string "é", ⟨0, 4⟩⟩, ⟨.ident "x", ⟨5, 6⟩⟩,
        ⟨.string "=5", ⟨7, 10⟩⟩, ⟨.eof, ⟨10, 10⟩⟩] := by
  have hquotes : Even ("\"é\" x.".toList.count '\"') := by decide +kernel
  have hb : Piece.Separate "\"=5".toList :=
    Piece.separate_cons (by decide) (by decide) (fun o => by cases o <;> decide) _
  refine ⟨hquotes, hb, (lex_append_of_separate hquotes hb).trans ?_⟩
  decide +kernel

/-- A segment with a declaration takes two tokens in front of the end token. -/
lemma Segment.two_le_length_of_mem_split {ts : List Token} {e : Token} {s : Segment}
    (he : e.kind = .eof) (h : s ∈ split (ts ++ [e])) (hnode : s.node?.isSome = true) :
    2 ≤ ts.length := by
  obtain ⟨before, after, rfl, -, hfits⟩ := exists_append_of_mem_split_eof he h
  have htwo := hfits.two_le_length hnode
  simp only [List.length_append]
  omega

/-- The segment of a last declaration starts in front of the last two tokens. -/
lemma exists_head_of_append_eq {left used rest : List Token} {t e : Token} {d : Spanned Declaration}
    (he : e.kind = .eof) (h : left ++ [t, e] = used ++ rest)
    (hd : d ∈ (parse rest).declarations) :
    ∃ u middle, left = used ++ u :: middle ∧ rest = u :: middle ++ [t, e] := by
  obtain ⟨s, hs, hsome⟩ := List.mem_filterMap.mp hd
  have hnode : s.node?.isSome = true := by
    obtain ⟨node, hnode, -⟩ := Option.map_eq_some_iff.mp hsome
    simp [hnode]
  have htwo : ∀ ts, rest = ts ++ [e] → 2 ≤ ts.length := by
    rintro ts rfl
    exact Segment.two_le_length_of_mem_split he hs hnode
  rcases List.append_eq_append_iff.mp h with ⟨more, -, hshort⟩ | ⟨middle, rfl, rfl⟩
  · rcases more with _ | ⟨_, _ | ⟨_, more⟩⟩
    · have hlength := htwo [t] hshort.symm
      simp at hlength
    · have hlength := htwo [] (by simpa using (List.cons.inj hshort).2.symm)
      simp at hlength
    · have hnil : rest = [] := by simp_all
      simp [hnil] at hs
  · have hlength := htwo (middle ++ [t]) (by simp)
    cases middle with
    | nil => simp at hlength
    | cons u middle => exact ⟨u, middle, rfl, rfl⟩

/-- All declarations but the last one are settled before the last token in front of the end. -/
theorem dropLast_declarations_parse_prefix (left more : List Token) (t : Token) {e : Token}
    (he : e.kind = .eof) :
    (parse (left ++ [t, e])).declarations.dropLast <+: (parse (left ++ more)).declarations := by
  rcases List.eq_nil_or_concat (parse (left ++ [t, e])).declarations with hnil | ⟨ds, d, hds⟩
  · rw [hnil]
    exact List.nil_prefix
  rw [hds, List.concat_eq_append, List.dropLast_concat]
  rw [List.concat_eq_append] at hds
  obtain ⟨ss, ss', hsplit, rfl, hlast⟩ := List.filterMap_eq_append_iff.mp hds
  obtain ⟨rest, hts, hleads, rfl⟩ := Segment.exists_leads_of_split hsplit
  have hd : d ∈ (parse rest).declarations := by
    rw [parse, hlast]
    exact List.mem_singleton_self d
  obtain ⟨u, middle, rfl, rfl⟩ := exists_head_of_append_eq he hts hd
  have hleads' : Segment.Leads ss (u :: (middle ++ more)) :=
    hleads.exchange fun v hv => ⟨v, hv, rfl⟩
  rw [List.append_assoc, List.cons_append, declarations_parse_of_leads hleads']
  exact List.prefix_append _ _

/-- Appended text changes, of all declarations read so far, at most the last one. -/
theorem dropLast_declarations_parse_lex_prefix (a b : String) :
    (parse (lex a)).declarations.dropLast <+: (parse (lex (a ++ b))).declarations := by
  have hprefix := Token.dropLast_lay_prefix a.toList b.toList
  rw [← String.toList_append] at hprefix
  rw [lex_eq_lay a, lex_eq_lay (a ++ b)]
  rcases List.eq_nil_or_concat (Token.lay 0 (Piece.split a.toList)) with hnil | ⟨left, t, hlay⟩
  · have hempty : (parse [⟨.eof, .point a.utf8ByteSize⟩]).declarations = [] := by
      simp [parse, Segment.split_eof]
    rw [hnil, List.nil_append, hempty]
    exact List.nil_prefix
  · rw [hlay, List.concat_eq_append, List.dropLast_concat] at hprefix
    obtain ⟨more, hmore⟩ := hprefix
    rw [hlay, List.concat_eq_append, ← hmore, List.append_assoc, List.append_assoc]
    exact dropLast_declarations_parse_prefix left _ t rfl

namespace Segment

lemma OpenParams.parensClosed_eq_false {s : Segment} {e : Token} (h : OpenParams s)
    (he : e.kind = .eof) : Token.parensClosed (s.tokens ++ [e]) = false := by
  cases h with
  | @intro t named opening inside _ _ _ _ hopening hinside =>
    have hnone : (inside ++ [e]).any (·.kind = .delimiter .rparen) = false := by
      rw [List.any_eq_false]
      intro u hu
      rcases List.mem_append.mp hu with hu | hu
      · have hin := List.all_eq_true.mp hinside u hu
        simp only [inParams, decide_eq_true_eq] at hin
        simpa using hin.1
      · rw [List.mem_singleton.mp hu, he]
        simp
    rw [Bool.eq_false_iff]
    intro hparens
    have hclosed := Token.parensClosed_of_append [t, named] hparens
    simp [Token.parensClosed, hopening, hnone] at hclosed

/-- A newline ends a segment where the end of the input does, if its parentheses are closed. -/
lemma Fits.before_newline {s : Segment} {e line : Token} (h : Fits s [e]) (he : e.kind = .eof)
    (hparens : Token.parensClosed (s.tokens ++ [e]) = true) (hline : line.kind = .newline)
    (rest : List Token) : Fits s (line :: rest) := by
  have hend : Fits s [] := h.exchange (by simp)
  rcases hend.before_newline_or_open hline rest with hfits | hopen
  · exact hfits
  · rw [hopen.parensClosed_eq_false he] at hparens
    cases hparens

end Segment

/-- A newline divides the declarations: those in front of it are read as at the end of the
input, and those behind it as at the beginning. -/
theorem declarations_parse_line {ts : List Token} {e line : Token}
    (hts : ∀ t ∈ ts, t.kind ≠ .eof) (he : e.kind = .eof) (hline : line.kind = .newline)
    (hparens : Token.parensClosed (ts ++ [e]) = true) (rest : List Token) :
    (parse (ts ++ line :: rest)).declarations =
      (parse (ts ++ [e])).declarations ++ (parse rest).declarations := by
  obtain ⟨htokens, hleads⟩ := Segment.leads_split_eof hts he
  have hleads' : Segment.Leads (Segment.split (ts ++ [e])) (line :: rest) := by
    rcases List.eq_nil_or_concat (Segment.split (ts ++ [e])) with hnil | ⟨ss, s, hsplit⟩
    · rw [hnil]
      exact Segment.Leads.nil
    · rw [hsplit, List.concat_eq_append] at hleads htokens ⊢
      rw [Segment.leads_append_iff] at hleads ⊢
      obtain ⟨hfront, _ | ⟨hhead, hfits, -⟩⟩ := hleads
      rw [← htokens, List.flatMap_append, List.append_assoc] at hparens
      have hfits' := hfits.before_newline he
        (by simpa using Token.parensClosed_of_append _ hparens) hline rest
      exact ⟨hfront.exchange fun u hu => ⟨u, hu, rfl⟩,
        Segment.Leads.cons hhead hfits' Segment.Leads.nil⟩
  have hnewline : (parse (line :: rest)).declarations = (parse rest).declarations := by
    have hfits : Segment.Fits ⟨line, [], none⟩ rest :=
      Segment.Fits.other (by simp [hline]) (by simp [hline])
    have hone := declarations_parse_of_leads
      (Segment.Leads.cons (by simp [hline]) hfits Segment.Leads.nil)
    exact hone
  have hlines := declarations_parse_of_leads hleads'
  rw [htokens, hnewline] at hlines
  exact hlines

lemma separate_newline (cs : List Char) : Piece.Separate ('\n' :: cs) :=
  Piece.separate_of_mem (by decide) cs

lemma toList_newline_append (b : String) : ("\n" ++ b).toList = '\n' :: b.toList := by simp

lemma lex_newline_append (b : String) :
    lex ("\n" ++ b) = ⟨.newline, ⟨0, 1⟩⟩ :: (lex b).map (Token.shift 1) := by
  have hone : Piece.split "\n".toList = [⟨['\n'], some .newline⟩] := by decide +kernel
  have hsplit : Piece.split ("\n" ++ b).toList =
      Piece.split "\n".toList ++ Piece.split b.toList := by
    rw [toList_newline_append, hone, Piece.split_cons]
    rfl
  rw [lex_append hsplit, hone]
  rfl

/-- A text that leaves no string and no parameter list open is read to its end before the next
line begins. The declarations of the next lines are those of their text alone, further behind. -/
theorem declarations_parse_lex_line {a b : String} (hquotes : Even (a.toList.count '\"'))
    (hparens : Token.parensClosed (lex a) = true) :
    (parse (lex (a ++ "\n" ++ b))).declarations = (parse (lex a)).declarations ++
      (parse (lex b)).declarations.map fun d => ⟨d.node, d.span.shift (a.utf8ByteSize + 1)⟩ := by
  have hsplit : Piece.split (a ++ ("\n" ++ b)).toList =
      Piece.split a.toList ++ Piece.split ("\n" ++ b).toList := by
    rw [String.toList_append]
    refine Piece.split_append_of_separate hquotes ?_
    rw [toList_newline_append]
    exact separate_newline _
  have hlex : lex (a ++ "\n" ++ b) = Token.lay 0 (Piece.split a.toList) ++
      ⟨.newline, ⟨a.utf8ByteSize, a.utf8ByteSize + 1⟩⟩ ::
        (lex b).map (Token.shift (a.utf8ByteSize + 1)) := by
    have hshift : ∀ t : Token, (t.shift 1).shift a.utf8ByteSize = t.shift (a.utf8ByteSize + 1) := by
      intro t
      rw [Token.shift_shift, Nat.add_comm]
    rw [String.append_assoc, lex_append hsplit, lex_newline_append, List.map_cons, List.map_map]
    simp only [Function.comp_def, hshift]
    simp [Token.shift, Span.shift, Nat.add_comm]
  rw [lex_eq_lay a] at hparens
  rw [hlex, declarations_parse_line (fun t ht => Token.kind_ne_eof_of_mem_lay ht) rfl rfl hparens,
    ← lex_eq_lay, parse_map_shift]

/-- Two lines that break off, in front of a third one. -/
theorem declarations_parse_lex_line_broken :
    Even ("\"é\" int f(char c) #include <x\nint y =".toList.count '\"') ∧
      Token.parensClosed (lex "\"é\" int f(char c) #include <x\nint y =") = true ∧
      (parse (lex "\"é\" int f(char c) #include <x\nint y =\n= 5; char z")).declarations =
        [⟨.function { returnType := "int", name := "f", params := [⟨"char", "c"⟩] }, ⟨5, 18⟩⟩,
          ⟨.var ⟨"int", "y", none⟩, ⟨31, 38⟩⟩, ⟨.var ⟨"char", "z", none⟩, ⟨44, 50⟩⟩] := by
  have hquotes : Even ("\"é\" int f(char c) #include <x\nint y =".toList.count '\"') := by
    decide +kernel
  have hparens : Token.parensClosed (lex "\"é\" int f(char c) #include <x\nint y =") = true := by
    decide +kernel
  refine ⟨hquotes, hparens, ?_⟩
  have hlines := declarations_parse_lex_line (b := "= 5; char z") hquotes hparens
  rw [show "\"é\" int f(char c) #include <x\nint y =\n= 5; char z" =
    "\"é\" int f(char c) #include <x\nint y =" ++ "\n" ++ "= 5; char z" from rfl, hlines]
  decide +kernel

end Scaffold
