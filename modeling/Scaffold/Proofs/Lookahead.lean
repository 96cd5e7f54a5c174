import Mathlib.Algebra.Group.Nat.Even
import Scaffold.Proofs.Placement
import Scaffold.Proofs.SegmentGrammar

/-!
# How far reading looks ahead

A piece depends on at most two characters behind it, and a segment on one token.
What was cut off stays the same when the text or the tokens behind it are exchanged
for others that look the same from there. A text that starts with no part of a word,
numeral or operator is such a divide: both sides of it are cut on their own.
-/
namespace Scaffold

namespace Word

/-- Two characters decide whether a word goes on, and one does if it is no dot. -/
lemma goesOn_append {cs : List Char} (h : goesOn cs = false) (hne : cs ≠ []) (hdot : cs ≠ ['.'])
    (ds : List Char) : goesOn (cs ++ ds) = false := by
  match cs with
  | [] => exact absurd rfl hne
  | [c] =>
    have hc : c ≠ '.' := fun hc => hdot (by rw [hc])
    simp only [goesOn, Bool.or_eq_false_iff] at h
    exact goesOn_cons_eq_false h.1 hc ds
  | c :: d :: cs => simpa [goesOn] using h

/-- The characters of a word. -/
lemma continues_or_dot_of_tail {cs : List Char} (h : Tail cs) :
    ∀ c ∈ cs, continues c = true ∨ c = '.' := by
  induction h with
  | nil => simp
  | character hc _ ih => exact List.forall_mem_cons.mpr ⟨Or.inl hc, ih⟩
  | dot hd _ ih =>
    exact List.forall_mem_cons.mpr ⟨Or.inr rfl,
      List.forall_mem_cons.mpr ⟨Or.inl (continues_of_starts hd), ih⟩⟩

lemma continues_or_dot_of_isWord {cs : List Char} (h : isWord cs = true) :
    ∀ c ∈ cs, continues c = true ∨ c = '.' := by
  cases cs with
  | nil => simp
  | cons c cs =>
    obtain ⟨hc, htail⟩ := (isWord_cons_iff c cs).mp h
    exact List.forall_mem_cons.mpr
      ⟨Or.inl (continues_of_starts hc), continues_or_dot_of_tail htail⟩

end Word

namespace Numeral

lemma goesOn_append {numeral cs : List Char} (h : goesOn numeral cs = false) (hne : cs ≠ [])
    (ds : List Char) : goesOn numeral (cs ++ ds) = false := by
  cases cs with
  | nil => exact absurd rfl hne
  | cons c cs => simpa [goesOn] using h

/-- The characters of a numeral. -/
lemma isDigit_or_dot_of_isNumeral {cs : List Char} (h : isNumeral cs = true) :
    ∀ c ∈ cs, c.isDigit = true ∨ c = '.' := by
  have hdigits : ∀ {ds : List Char}, ds.all Char.isDigit = true →
      ∀ c ∈ ds, c.isDigit = true ∨ c = '.' :=
    fun hds c hc => Or.inl (List.all_eq_true.mp hds c hc)
  cases cs with
  | nil => simp
  | cons c cs =>
    obtain ⟨hc, htail⟩ := (isNumeral_cons_iff c cs).mp h
    refine List.forall_mem_cons.mpr ⟨Or.inl hc, ?_⟩
    cases htail with
    | whole hall => exact hdigits hall
    | fraction hall hdecimals =>
      exact List.forall_mem_append.mpr
        ⟨hdigits hall, List.forall_mem_cons.mpr ⟨Or.inr rfl, hdigits hdecimals⟩⟩

end Numeral

namespace Piece

/-- Texts that begin with no part of a word, a numeral or an operator. -/
def Separate (cs : List Char) : Prop :=
  ∀ c ∈ cs.head?, Word.continues c = false ∧ c ≠ '.' ∧ ∀ o : Operator, c ∉ o.chars

lemma separate_cons {c : Char} (hword : Word.continues c = false) (hdot : c ≠ '.')
    (hoperator : ∀ o : Operator, c ∉ o.chars) (cs : List Char) : Separate (c :: cs) := by
  intro d hd
  cases hd
  exact ⟨hword, hdot, hoperator⟩

/-- Spaces, newlines and quotes. -/
lemma separate_of_mem {c : Char} (h : c ∈ [' ', '\n', '\"']) (cs : List Char) :
    Separate (c :: cs) := by
  simp only [List.mem_cons, List.not_mem_nil, or_false] at h
  have hoperator : ∀ o : Operator, c ∉ o.chars := by
    intro o
    rcases h with rfl | rfl | rfl <;> cases o <;> decide
  rcases h with rfl | rfl | rfl <;> exact separate_cons (by decide) (by decide) hoperator cs

lemma goesOn_nil (p : Piece) : p.goesOn [] = false := by
  unfold goesOn
  split <;> simp

/-- The characters behind a piece settle its end when there are any, a lone dot apart. -/
lemma goesOn_append {p : Piece} {cs : List Char} (h : p.goesOn cs = false) (hne : cs ≠ [])
    (hdot : cs ≠ ['.']) (ds : List Char) : p.goesOn (cs ++ ds) = false := by
  unfold goesOn at h ⊢
  split at h
  · exact Word.goesOn_append h hne hdot ds
  · exact Word.goesOn_append h hne hdot ds
  · exact Numeral.goesOn_append h hne ds
  · rwa [List.head?_append_of_ne_nil _ hne]
  · simp_all
  · rfl

/-- Pieces other than a string without its closing quote. -/
def Closed (p : Piece) : Prop := Even (p.text.count '\"')

lemma quote_not_mem_of_isWord {cs : List Char} (h : Word.isWord cs = true) : '\"' ∉ cs := by
  intro hmem
  rcases Word.continues_or_dot_of_isWord h _ hmem with hquote | hquote
  · revert hquote
    decide
  · revert hquote
    decide

/-- Quotes are written around strings only. -/
lemma quote_not_mem_write {kind : TokenKind} (h : kind.isPrintable = true)
    (hstring : ∀ s, kind ≠ .string s) : '\"' ∉ kind.write := by
  cases kind with
  | keyword k => exact quote_not_mem_of_isWord (isWord_keyword_spelling k)
  | ident s =>
    simp only [TokenKind.isPrintable, Bool.and_eq_true] at h
    exact quote_not_mem_of_isWord h.1
  | number s =>
    intro hmem
    rcases Numeral.isDigit_or_dot_of_isNumeral h _ hmem with hquote | hquote
    · revert hquote
      decide
    · revert hquote
      decide
  | string s => exact absurd rfl (hstring s)
  | operator o => cases o <;> decide
  | delimiter d => cases d <;> decide
  | newline => decide
  | eof => simp [TokenKind.isPrintable] at h

lemma Insignificant.ne_quote {c : Char} (h : Insignificant c) : c ≠ '\"' := by
  rcases h with ⟨hblank, -⟩ | ⟨-, hquote, -⟩
  · rintro rfl
    revert hblank
    decide
  · exact hquote

/-- A token is written with both quotes or with none. -/
lemma closed_write {kind : TokenKind} (h : kind.isPrintable = true) :
    Closed ⟨kind.write, some kind⟩ := by
  by_cases hstring : ∃ s, kind = .string s
  · obtain ⟨s, rfl⟩ := hstring
    have hs : s.toList.count '\"' = 0 :=
      List.count_eq_zero.mpr (by simpa [TokenKind.isPrintable] using h)
    simp only [Closed, TokenKind.write, List.cons_append, List.count_cons_self, List.count_append,
      hs]
    decide
  · have hnone := quote_not_mem_write h fun s hs => hstring ⟨s, hs⟩
    simp [Closed, List.count_eq_zero.mpr hnone]

/-- A valid piece is closed, or it is a string with one quote only. -/
lemma Valid.closed_or {p : Piece} (h : p.Valid) :
    p.Closed ∨ ∃ s : String, p = ⟨'\"' :: s.toList, some (.string s)⟩ ∧
      p.text.count '\"' = 1 := by
  cases h with
  | gap hc =>
    refine Or.inl ?_
    simp [Closed, hc.ne_quote]
  | token hkind => exact Or.inl (closed_write hkind)
  | @unclosed s hs =>
    refine Or.inr ⟨s, rfl, ?_⟩
    simp [List.count_eq_zero.mpr hs]

/-- In a text with an even number of quotes every string has both of its own. -/
lemma Cut.closed_of_even {ps : List Piece} (h : Cut ps)
    (heven : Even ((ps.flatMap text).count '\"')) : ∀ p ∈ ps, p.Closed := by
  induction h with
  | nil => simp
  | @cons p ps hvalid hrest _ ih =>
    rw [List.flatMap_cons, List.count_append] at heven
    rcases hvalid.closed_or with hp | ⟨s, rfl, hone⟩
    · exact List.forall_mem_cons.mpr ⟨hp, ih ((Nat.even_add.mp heven).mp hp)⟩
    · have hnil : ps.flatMap text = [] := by simpa [goesOn] using hrest
      rw [hnil, hone] at heven
      exact absurd heven (by decide)

lemma extend?_eq_none_of_not_mem {c : Char} (h : ∀ o : Operator, c ∉ o.chars) (o : Operator) :
    o.extend? c = none := by
  rw [Option.eq_none_iff_forall_ne_some]
  intro p hp
  exact h p (by rw [Operator.chars_of_extend? hp]; simp)

/-- No closed piece reaches into a separate text. -/
lemma goesOn_of_separate {p : Piece} (hvalid : p.Valid) (hclosed : p.Closed) {cs : List Char}
    (h : Separate cs) : p.goesOn cs = false := by
  cases cs with
  | nil => exact goesOn_nil p
  | cons c cs =>
    obtain ⟨hword, hdot, hoperator⟩ := h c rfl
    unfold goesOn
    split
    · exact Word.goesOn_cons_eq_false hword hdot cs
    · exact Word.goesOn_cons_eq_false hword hdot cs
    · rw [continues_eq, Bool.or_eq_false_iff] at hword
      exact Numeral.goesOn_cons_eq_false hword.2 hdot _ cs
    · simp [extend?_eq_none_of_not_mem hoperator]
    · rename_i s hs
      rcases hvalid.kind_cases hs with ⟨hprintable, -⟩
      have hquote : s.toList.count '\"' = 0 :=
        List.count_eq_zero.mpr (by simpa [TokenKind.isPrintable] using hprintable)
      have htext : p.text ≠ '\"' :: s.toList := by
        intro htext
        rw [Closed, htext, List.count_cons_self, hquote] at hclosed
        exact absurd hclosed (by decide)
      simp [htext]
    · rfl

lemma goesOn_append_of_separate {p : Piece} (hvalid : p.Valid) (hclosed : p.Closed)
    {cs ds : List Char} (h : p.goesOn cs = false) (hds : Separate ds) :
    p.goesOn (cs ++ ds) = false := by
  by_cases hne : cs = []
  · rw [hne, List.nil_append]
    exact goesOn_of_separate hvalid hclosed hds
  by_cases hdot : cs = ['.']
  · subst hdot
    have hstarts : ds.head?.any Word.starts = false := by
      cases ds with
      | nil => rfl
      | cons d ds =>
        have hd := (hds d rfl).1
        rw [continues_eq, Bool.or_eq_false_iff] at hd
        exact hd.1
    unfold goesOn at h ⊢
    split at h
    · simp [Word.goesOn, hstarts]
    · simp [Word.goesOn, hstarts]
    · exact Numeral.goesOn_append h hne ds
    · exact h
    · simpa using h
    · rfl
  · exact goesOn_append h hne hdot ds

/-- Pieces stay the same when the text behind them is exchanged for one that makes none
of them longer. -/
theorem Cut.exchange {ps qs rs : List Piece} (h : Cut (ps ++ qs)) (hrs : Cut rs)
    (hgoesOn : ∀ p ∈ ps, ∀ cs, p.goesOn (cs ++ qs.flatMap text) = false →
      p.goesOn (cs ++ rs.flatMap text) = false) : Cut (ps ++ rs) := by
  induction ps with
  | nil => exact hrs
  | cons p ps ih =>
    rw [List.cons_append] at h ⊢
    obtain ⟨hp, hps⟩ := List.forall_mem_cons.mp hgoesOn
    cases h with
    | cons hvalid hrest htail =>
    rw [List.flatMap_append] at hrest
    refine Cut.cons hvalid ?_ (ih htail hps)
    rw [List.flatMap_append]
    exact hp _ hrest

/-- Both sides of a divide are cut on their own. -/
theorem split_append_of_separate {cs ds : List Char} (heven : Even (cs.count '\"'))
    (hds : Separate ds) : split (cs ++ ds) = split cs ++ split ds := by
  obtain ⟨hcut, htext⟩ := (split_eq_iff cs _).mp rfl
  obtain ⟨hcut', htext'⟩ := (split_eq_iff ds _).mp rfl
  rw [split_eq_iff, List.flatMap_append, htext, htext']
  refine ⟨?_, rfl⟩
  have hclosed := hcut.closed_of_even (by rwa [htext])
  rw [← List.append_nil (split cs)] at hcut
  refine hcut.exchange hcut' fun p hp front hfront => ?_
  rw [List.flatMap_nil, List.append_nil] at hfront
  rw [htext']
  exact goesOn_append_of_separate (hcut.valid_of_mem p (by simp [hp])) (hclosed p hp) hfront hds

lemma insignificant_dot : Insignificant '.' :=
  insignificant_of_ofChar?_eq_none (by decide) (by decide) (by decide) (by decide) rfl rfl

/-- A dot alone is no token. -/
lemma Valid.text_ne_dot {p : Piece} (h : p.Valid) (hp : p.kind?.isSome = true) :
    p.text ≠ ['.'] := by
  intro htext
  have hfirst := first_of_valid h htext p.goesOn_nil
  rw [List.append_nil, first_gap insignificant_dot] at hfirst
  obtain ⟨rfl, -⟩ := Prod.mk.inj hfirst
  simp at hp

/-- The pieces in front of a token do not depend on what is appended behind it. -/
theorem split_append_of_token {cs : List Char} {before after : List Piece} {p : Piece}
    (h : split cs = before ++ p :: after) (hp : p.kind?.isSome = true) (ds : List Char) :
    split (cs ++ ds) = before ++ split (p.text ++ after.flatMap text ++ ds) := by
  obtain ⟨hcut, htext⟩ := (split_eq_iff cs _).mp h
  have hvalid := hcut.valid_of_mem p (by simp)
  set more := p.text ++ after.flatMap text ++ ds with hmore
  obtain ⟨hcut', htext'⟩ := (split_eq_iff more _).mp rfl
  rw [split_eq_iff, List.flatMap_append, htext', ← htext, hmore]
  refine ⟨hcut.exchange hcut' fun q _ front hfront => ?_, by simp⟩
  rw [htext', hmore, ← List.append_assoc]
  rw [List.flatMap_cons] at hfront
  refine goesOn_append hfront ?_ ?_ ds
  · simp [hvalid.text_ne_nil]
  · intro hdot
    obtain ⟨-, hp', -⟩ : front = [] ∧ p.text = ['.'] ∧ after.flatMap text = [] := by
      have hne := hvalid.text_ne_nil
      cases front <;> simp_all [List.append_eq_singleton_iff]
    exact hvalid.text_ne_dot hp hp'

end Piece

namespace Segment

/-- The tokens taken stay the same in front of others that fail the tests as well. -/
lemma expect_exchange {tests : List (TokenKind → Bool)} {used rest rest' : List Token}
    (h : expect tests (used ++ rest) = (used, rest))
    (hstop : ∀ test ∈ tests, (∀ u ∈ rest.head?, test u.kind = false) →
      ∀ u ∈ rest'.head?, test u.kind = false) :
    expect tests (used ++ rest') = (used, rest') := by
  induction used generalizing tests with
  | nil =>
    match tests, rest' with
    | [], [] | [], _ :: _ | _ :: _, [] => rfl
    | test :: tests, u :: rest' =>
      have hrest : ∀ v ∈ rest.head?, test v.kind = false := by
        intro v hv
        obtain ⟨more, rfl⟩ := List.head?_eq_some_iff.mp hv
        by_contra hpass
        simp [expect, hpass] at h
      simp [expect, hstop test (by simp) hrest u rfl]
  | cons t used ih =>
    cases tests with
    | nil => simp [expect] at h
    | cons test tests =>
      rw [List.cons_append, expect] at h ⊢
      by_cases hpass : test t.kind = true
      · rw [if_pos hpass, Prod.mk.injEq, List.cons.injEq] at h
        rw [if_pos hpass, ih (Prod.ext h.1.2 h.2) fun test htest => hstop test (by simp [htest])]
      · simp [hpass] at h

/-- One token decides whether a segment fits: the first one behind it, if there is any. -/
theorem Fits.exchange {s : Segment} {rest rest' : List Token} (h : Fits s rest)
    (hhead : ∀ u ∈ rest'.head?, ∃ v ∈ rest.head?, v.kind = u.kind) : Fits s rest' := by
  have hpass : ∀ P : TokenKind → Prop, (∀ v ∈ rest.head?, P v.kind) →
      ∀ u ∈ rest'.head?, P u.kind := by
    intro P hP u hu
    obtain ⟨v, hv, hkind⟩ := hhead u hu
    rw [← hkind]
    exact hP v hv
  cases h with
  | other hhash ht => exact Fits.other hhash ht
  | directive hhash hused hshort =>
    exact Fits.directive hhash (expect_exchange hused fun test _ => hpass (test · = false)) hshort
  | inclusion hhash hword hopening hlibrary hclosing =>
    exact Fits.inclusion hhash hword hopening hlibrary hclosing
  | bareType ht hrest => exact Fits.bareType ht (hpass (·.name? = none) hrest)
  | plain ht hnamed hrest =>
    exact Fits.plain ht hnamed
      (hpass (fun kind => kind ≠ .delimiter .lparen ∧ kind ≠ .operator .eq) hrest)
  | dangling ht hnamed hequals hrest =>
    exact Fits.dangling ht hnamed hequals (hpass (·.isLayout = true) hrest)
  | initialized ht hnamed hequals hvalue => exact Fits.initialized ht hnamed hequals hvalue
  | closed ht hnamed hopening hinside hclosing =>
    exact Fits.closed ht hnamed hopening hinside hclosing
  | unclosed ht hnamed hopening hinside hrest =>
    exact Fits.unclosed ht hnamed hopening hinside (hpass (· = .eof) hrest)

/-- A function whose parameter list is not closed. -/
inductive OpenParams : Segment → Prop
  | intro {t named opening : Token} {inside : List Token} {p : Primitive} {name : String} :
      t.kind.declarable? = some p → named.kind.name? = some name →
      opening.kind = .delimiter .lparen → inside.all inParams = true →
      OpenParams ⟨t, named :: opening :: inside, some (.function
        { returnType := p.spelling, name, params := Param.ofTokens inside })⟩

/-- A newline ends a segment where the end of the tokens does, an open parameter list apart. -/
lemma Fits.before_newline_or_open {s : Segment} {line : Token} (h : Fits s [])
    (hline : line.kind = .newline) (rest : List Token) : Fits s (line :: rest) ∨ OpenParams s := by
  cases h with
  | unclosed ht hnamed hopening hinside _ => exact Or.inr ⟨ht, hnamed, hopening, hinside⟩
  | other hhash ht => exact Or.inl (Fits.other hhash ht)
  | directive hhash hused hshort =>
    refine Or.inl (Fits.directive hhash (expect_exchange hused ?_) hshort)
    simp [inclusionTests, hline, TokenKind.isLayout]
  | inclusion hhash hword hopening hlibrary hclosing =>
    exact Or.inl (Fits.inclusion hhash hword hopening hlibrary hclosing)
  | bareType ht _ => exact Or.inl (Fits.bareType ht (by simp [hline, TokenKind.name?]))
  | plain ht hnamed _ => exact Or.inl (Fits.plain ht hnamed (by simp [hline]))
  | dangling ht hnamed hequals _ =>
    exact Or.inl (Fits.dangling ht hnamed hequals (by simp [hline, TokenKind.isLayout]))
  | initialized ht hnamed hequals hvalue =>
    exact Or.inl (Fits.initialized ht hnamed hequals hvalue)
  | closed ht hnamed hopening hinside hclosing =>
    exact Or.inl (Fits.closed ht hnamed hopening hinside hclosing)

/-- Segments that are cut off one after the other in front of the rest of the tokens. -/
inductive Leads : List Segment → List Token → Prop
  | nil {rest : List Token} : Leads [] rest
  | cons {s : Segment} {ss : List Segment} {rest : List Token} : s.head.kind ≠ .eof →
      Fits s (ss.flatMap tokens ++ rest) → Leads ss rest → Leads (s :: ss) rest

theorem Leads.split_append {ss : List Segment} {rest : List Token} (h : Leads ss rest) :
    split (ss.flatMap tokens ++ rest) = ss ++ split rest := by
  induction h with
  | nil => rfl
  | cons hhead hfits _ ih =>
    rw [List.flatMap_cons, List.append_assoc, split_of_fits hhead hfits, ih, List.cons_append]

/-- The first segments of a token list lead the tokens that the others are cut from. -/
theorem exists_leads_of_split {ts : List Token} {ss ss' : List Segment}
    (h : split ts = ss ++ ss') :
    ∃ rest, ts = ss.flatMap tokens ++ rest ∧ Leads ss rest ∧ split rest = ss' := by
  induction ss generalizing ts with
  | nil => exact ⟨ts, rfl, Leads.nil, h⟩
  | cons s ss ih =>
    induction ts using splitInduction with
    | nil => simp at h
    | eof t ts heof => simp [split_eof heof] at h
    | segment u more hhead hfits _ =>
      rw [split_of_fits hhead hfits, List.cons_append] at h
      obtain ⟨rfl, hmore⟩ := List.cons.inj h
      obtain ⟨rest, rfl, hleads, hrest⟩ := ih hmore
      exact ⟨rest, by simp, Leads.cons hhead hfits hleads, hrest⟩

theorem leads_append_iff {ss ss' : List Segment} {rest : List Token} :
    Leads (ss ++ ss') rest ↔ Leads ss (ss'.flatMap tokens ++ rest) ∧ Leads ss' rest := by
  induction ss with
  | nil => exact ⟨fun h => ⟨Leads.nil, h⟩, fun h => h.2⟩
  | cons s ss ih =>
    rw [List.cons_append]
    constructor
    · rintro (_ | ⟨hhead, hfits, hleads⟩)
      obtain ⟨hfirst, hlast⟩ := ih.mp hleads
      rw [List.flatMap_append, List.append_assoc] at hfits
      exact ⟨Leads.cons hhead hfits hfirst, hlast⟩
    · rintro ⟨_ | ⟨hhead, hfits, hfirst⟩, hlast⟩
      refine Leads.cons hhead ?_ (ih.mpr ⟨hfirst, hlast⟩)
      rwa [List.flatMap_append, List.append_assoc]

/-- Segments stay the same in front of other tokens with the same first one. -/
theorem Leads.exchange {ss : List Segment} {rest rest' : List Token} (h : Leads ss rest)
    (hhead : ∀ u ∈ rest'.head?, ∃ v ∈ rest.head?, v.kind = u.kind) : Leads ss rest' := by
  induction h with
  | nil => exact Leads.nil
  | @cons s ss rest hs hfits _ ih =>
    refine Leads.cons hs (hfits.exchange ?_) (ih hhead)
    cases ss with
    | nil => exact hhead
    | cons u ss =>
      intro v hv
      exact ⟨v, hv, rfl⟩

/-- A list without end tokens is made up of the segments in front of the end token. -/
lemma leads_split_eof {ts : List Token} {e : Token} (hts : ∀ t ∈ ts, t.kind ≠ .eof)
    (he : e.kind = .eof) :
    (split (ts ++ [e])).flatMap tokens = ts ∧ Leads (split (ts ++ [e])) [e] := by
  have htokens : (split (ts ++ [e])).flatMap tokens = ts := by
    rw [flatMap_tokens_split, List.takeWhile_append_of_pos (by simpa using hts)]
    simp [he]
  obtain ⟨rest, hrest, hleads, -⟩ :=
    exists_leads_of_split (List.append_nil (split (ts ++ [e]))).symm
  rw [htokens] at hrest
  obtain rfl := List.append_cancel_left hrest
  exact ⟨htokens, hleads⟩

/-- A declaration begins with a hash or a type. -/
lemma Fits.head_kind {s : Segment} {rest : List Token} (h : Fits s rest)
    (hnode : s.node?.isSome = true) :
    s.head.kind = .delimiter .hash ∨ s.head.kind.declarable?.isSome = true := by
  cases h with
  | other => simp at hnode
  | directive => simp at hnode
  | bareType => simp at hnode
  | inclusion hhash => exact Or.inl hhash
  | plain ht | dangling ht | initialized ht | closed ht | unclosed ht => exact Or.inr (by simp [ht])

/-- A declaration takes two tokens or more. -/
lemma Fits.two_le_length {s : Segment} {rest : List Token} (h : Fits s rest)
    (hnode : s.node?.isSome = true) : 2 ≤ s.tokens.length := by
  cases h with
  | other => simp at hnode
  | directive => simp at hnode
  | bareType => simp at hnode
  | _ => simp [tokens]

end Segment

lemma Token.shift_shift (m n : Nat) (t : Token) : (t.shift m).shift n = t.shift (m + n) := by
  simp [shift, Span.shift, Nat.add_assoc]

/-- Where the pieces of two texts stand side by side, so do their tokens. -/
lemma lex_append {a b : String} (h : Piece.split (a ++ b).toList =
    Piece.split a.toList ++ Piece.split b.toList) :
    lex (a ++ b) = Token.lay 0 (Piece.split a.toList) ++
      (lex b).map (Token.shift a.utf8ByteSize) := by
  have hend : (⟨.eof, .point (a ++ b).utf8ByteSize⟩ : Token) =
      Token.shift a.utf8ByteSize ⟨.eof, .point b.utf8ByteSize⟩ := by
    simp [Token.shift, Span.shift, Span.point, Nat.add_comm]
  rw [lex_eq_lay, h, Token.lay_append, Piece.flatMap_text_split, byteSize_toList,
    Token.lay_add, hend, List.append_assoc, lex_eq_lay b, List.map_append]
  rfl

/-- The tokens of two texts stand side by side where the first one leaves no string open and the
second one is separate. -/
lemma lex_append_eq_lay {a b : String} (hquotes : Even (a.toList.count '\"'))
    (hb : Piece.Separate b.toList) : lex (a ++ b) = Token.lay 0 (Piece.split a.toList) ++
      (lex b).map (Token.shift a.utf8ByteSize) := by
  apply lex_append
  rw [String.toList_append]
  exact Piece.split_append_of_separate hquotes hb

theorem declarations_parse_of_leads {ss : List Segment} {rest : List Token}
    (h : Segment.Leads ss rest) :
    (parse (ss.flatMap Segment.tokens ++ rest)).declarations =
      ss.filterMap Segment.declaration? ++ (parse rest).declarations := by
  simp only [parse, h.split_append, List.filterMap_append]

end Scaffold
