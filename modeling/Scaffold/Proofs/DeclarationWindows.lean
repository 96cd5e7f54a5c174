import Scaffold.Proofs.Lookahead
import Scaffold.Proofs.LosslessLexing

/-!
# The tokens of a declaration

Each declaration is read from neighbouring tokens, its window. Windows lie one behind
the other and do not overlap, and the tokens of a window alone are read as the same
declaration. The first and the last of them give its span, in whatever order the spans
of the tokens are.
-/
namespace Scaffold

/-- Neighbouring tokens of a list, at least one of them. -/
structure Window (ts : List Token) where
  start : Nat
  stop : Nat
  start_lt_stop : start < stop
  stop_le_length : stop ≤ ts.length

namespace Window

variable {ts : List Token}

lemma start_lt_length (w : Window ts) : w.start < ts.length :=
  Nat.lt_of_lt_of_le w.start_lt_stop w.stop_le_length

lemma pred_stop_lt_length (w : Window ts) : w.stop - 1 < ts.length := by
  have hlt := w.start_lt_stop
  have hle := w.stop_le_length
  omega

def tokens (w : Window ts) : List Token := (ts.take w.stop).drop w.start

def head (w : Window ts) : Token := ts.get ⟨w.start, w.start_lt_length⟩

def last (w : Window ts) : Token := ts.get ⟨w.stop - 1, w.pred_stop_lt_length⟩

/-- The tokens of the window are read as the declaration alone. They open with a hash or a
type, and the span of the declaration is made up of the first token and the end of the last. -/
structure Declares (w : Window ts) (d : Spanned Declaration) : Prop where
  declarations_parse : (parse w.tokens).declarations = [d]
  head_kind : w.head.kind = .delimiter .hash ∨ w.head.kind.declarable?.isSome = true
  span_eq : d.span = ⟨min w.head.span.start w.last.span.stop,
    max w.head.span.stop w.last.span.stop⟩

/-- The window behind more tokens at the front of the list. -/
def after (front : List Token) (w : Window ts) : Window (front ++ ts) where
  start := front.length + w.start
  stop := front.length + w.stop
  start_lt_stop := Nat.add_lt_add_left w.start_lt_stop _
  stop_le_length := by
    rw [List.length_append]
    exact Nat.add_le_add_left w.stop_le_length _

lemma tokens_after (front : List Token) (w : Window ts) : (w.after front).tokens = w.tokens := by
  simp only [tokens, after, List.take_length_add_append, List.drop_length_add_append]

lemma head_after (front : List Token) (w : Window ts) : (w.after front).head = w.head := by
  simp [head, after]

lemma last_after (front : List Token) (w : Window ts) : (w.after front).last = w.last := by
  have hpos : front.length + w.stop - 1 = front.length + (w.stop - 1) := by
    have hlt := w.start_lt_stop
    omega
  simp [last, after, hpos]

lemma Declares.after {w : Window ts} {d : Spanned Declaration} (h : w.Declares d)
    (front : List Token) : (w.after front).Declares d := by
  constructor
  · rw [tokens_after]
    exact h.declarations_parse
  · rw [head_after]
    exact h.head_kind
  · rw [head_after, last_after]
    exact h.span_eq

/-- The window of a segment in front of the other tokens. -/
def ofSegment (s : Segment) (rest : List Token) : Window (s.tokens ++ rest) where
  start := 0
  stop := s.tokens.length
  start_lt_stop := Nat.succ_pos _
  stop_le_length := by simp

lemma tokens_ofSegment (s : Segment) (rest : List Token) : (ofSegment s rest).tokens = s.tokens := by
  simp [tokens, ofSegment]

lemma head_ofSegment (s : Segment) (rest : List Token) : (ofSegment s rest).head = s.head := rfl

lemma last_ofSegment (s : Segment) (rest : List Token) :
    (ofSegment s rest).last = s.tail.getLastD s.head := by
  have hne : s.head :: s.tail ≠ [] := List.cons_ne_nil _ _
  rw [← List.getLast_eq_getLastD hne, List.getLast_eq_getElem hne]
  simp only [last, ofSegment, List.get_eq_getElem]
  exact List.getElem_append_left _

/-- A segment with a declaration is the window of it. -/
lemma declares_ofSegment {s : Segment} {rest : List Token} {node : Declaration}
    (hhead : s.head.kind ≠ .eof) (hfits : s.Fits rest) (hnode : s.node? = some node) :
    (ofSegment s rest).Declares ⟨node, s.span⟩ := by
  have hend : s.Fits [] := hfits.exchange (by simp)
  constructor
  · have hparse := declarations_parse_of_fits hhead hend
    simpa [tokens_ofSegment, Segment.declaration?, hnode, parse] using hparse
  · exact hfits.head_kind (by simp [hnode])
  · rw [head_ofSegment, last_ofSegment]
    rfl

end Window

/-- Declarations have windows, one for each and one behind the other. -/
theorem exists_windows (ts : List Token) :
    ∃ ws : List (Window ts), ws.Pairwise (fun v w => v.stop ≤ w.start) ∧
      List.Forall₂ Window.Declares ws (parse ts).declarations := by
  induction ts using Segment.splitInduction with
  | nil => exact ⟨[], List.Pairwise.nil, by simp [parse]⟩
  | eof t ts heof => exact ⟨[], List.Pairwise.nil, by simp [parse, Segment.split_eof heof]⟩
  | segment s rest hhead hfits ih =>
    obtain ⟨ws, hordered, hdeclares⟩ := ih
    have hordered' : (ws.map (Window.after s.tokens)).Pairwise fun v w => v.stop ≤ w.start := by
      rw [List.pairwise_map]
      exact hordered.imp fun h => Nat.add_le_add_left h _
    have hdeclares' : List.Forall₂ Window.Declares (ws.map (Window.after s.tokens))
        (parse rest).declarations := by
      rw [List.forall₂_map_left_iff]
      exact hdeclares.imp fun w d h => h.after s.tokens
    rw [declarations_parse_of_fits hhead hfits, Segment.declaration?]
    cases hnode : s.node? with
    | none => exact ⟨_, hordered', hdeclares'⟩
    | some node =>
      refine ⟨Window.ofSegment s rest :: ws.map (Window.after s.tokens), ?_,
        List.Forall₂.cons (Window.declares_ofSegment hhead hfits hnode) hdeclares'⟩
      rw [List.pairwise_cons]
      refine ⟨fun v hv => ?_, hordered'⟩
      obtain ⟨w, -, rfl⟩ := List.mem_map.mp hv
      exact Nat.le_add_right _ _

section Ordered

variable {ts : List Token} (hts : ts.Pairwise fun t u => t.span.stop ≤ u.span.start)
  (hspan : ∀ t ∈ ts, t.span.start ≤ t.span.stop)
include hts hspan

/-- Of two windows, each end of the first declaration lies before each end of the second one. -/
lemma Window.Declares.stop_le_start {v w : Window ts} {d e : Spanned Declaration}
    (hd : v.Declares d) (he : w.Declares e) (h : v.stop ≤ w.start) :
    d.span.stop ≤ e.span.start := by
  have hv := v.start_lt_stop
  have hw := w.start_lt_stop
  have hlast : w.last.span.start ≤ w.last.span.stop := hspan _ (List.get_mem _ _)
  rw [List.pairwise_iff_getElem] at hts
  have hheads : v.head.span.stop ≤ w.head.span.start := hts _ _ _ _ (by omega)
  have houter : v.head.span.stop ≤ w.last.span.start := hts _ _ _ _ (by omega)
  have hinner : v.last.span.stop ≤ w.head.span.start := hts _ _ _ _ (by omega)
  have hlasts : v.last.span.stop ≤ w.last.span.start := hts _ _ _ _ (by omega)
  rw [hd.span_eq, he.span_eq]
  simp only
  omega

/-- The spans of declarations follow each other as their windows do. -/
lemma pairwise_span_of_windows {ws : List (Window ts)} {ds : List (Spanned Declaration)}
    (hordered : ws.Pairwise fun v w => v.stop ≤ w.start)
    (hdeclares : List.Forall₂ Window.Declares ws ds) :
    ds.Pairwise fun d e => d.span.stop ≤ e.span.start := by
  rw [List.pairwise_iff_getElem] at hordered ⊢
  have hlength := hdeclares.length_eq
  intro i j hi hj hij
  have hd := hdeclares.get (by omega : i < ws.length) hi
  have he := hdeclares.get (by omega : j < ws.length) hj
  exact hd.stop_le_start hts hspan he (hordered i j _ _ hij)

end Ordered

/-- The tokens of a source follow each other, the end token included. -/
lemma pairwise_lex (source : String) :
    (lex source).Pairwise fun t u => t.span.stop ≤ u.span.start := by
  rw [lex_eq_lay, List.pairwise_append]
  refine ⟨Token.pairwise_lay 0 _, List.pairwise_singleton _ _, ?_⟩
  intro t ht u hu
  rw [List.mem_singleton.mp hu]
  exact (onBoundaries_of_mem_lex (by rw [lex_eq_lay]; simp [ht])).2

lemma start_le_stop_of_mem_lex {source : String} {t : Token} (h : t ∈ lex source) :
    t.span.start ≤ t.span.stop := by
  rw [lex_eq_lay, List.mem_append, List.mem_singleton] at h
  rcases h with h | rfl
  · exact Nat.le_of_lt (Token.nonempty_of_mem_lay h)
  · exact Nat.le_refl _

/-- A window of a source begins with a token that has text below it, and so has its declaration. -/
lemma Window.Declares.start_lt_stop {source : String} {w : Window (lex source)}
    {d : Spanned Declaration} (h : w.Declares d) : d.span.start < d.span.stop := by
  have hne : w.head.kind ≠ .eof := by
    intro heof
    have hkind := h.head_kind
    simp [heof] at hkind
  have hhead : w.head.span.start < w.head.span.stop :=
    Token.nonempty_of_mem_lay (mem_lay_of_mem_lex (List.get_mem _ _) hne)
  rw [h.span_eq]
  simp only
  omega

/-- The declarations of any tokens come from windows that follow each other. In a source their
spans follow each other as well, and none of them is empty. -/
theorem declarations_parse_windows :
    (∀ ts : List Token, ∃ ws : List (Window ts), ws.Pairwise (fun v w => v.stop ≤ w.start) ∧
      List.Forall₂ Window.Declares ws (parse ts).declarations) ∧
    ∀ source : String, (∀ d ∈ (parse (lex source)).declarations, d.span.start < d.span.stop) ∧
      (parse (lex source)).declarations.Pairwise fun d e => d.span.stop ≤ e.span.start := by
  refine ⟨exists_windows, fun source => ?_⟩
  obtain ⟨ws, hordered, hdeclares⟩ := exists_windows (lex source)
  refine ⟨?_, pairwise_span_of_windows (pairwise_lex source)
    (fun t ht => start_le_stop_of_mem_lex ht) hordered hdeclares⟩
  intro d hd
  obtain ⟨i, hi, rfl⟩ := List.getElem_of_mem hd
  have hlength := hdeclares.length_eq
  exact (hdeclares.get (by omega) hi).start_lt_stop

end Scaffold
