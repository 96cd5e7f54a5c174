import Mathlib.Data.List.ReduceOption
import Scaffold.Proofs.Lookahead

/-!
# Reading with a cursor

Declarations can be read with a cursor that moves over the tokens one by one: each test
looks at the token under the cursor and takes it or leaves it, and loops make turns until
the cursor stands where they end. The declaration found at a position is that of the
segment which begins there, with the same span and the same tokens used.
-/
namespace Scaffold

/-- A position in a token list. It may lie behind the last token. -/
structure TokenCursor where
  tokens : List Token
  pos : Nat
  deriving DecidableEq, Repr

namespace TokenCursor

open Segment (inParams expect inclusionTests)

/-- Stands in for the token behind the last one. -/
def beyond : Token := ⟨.eof, .point 0⟩

def peek (c : TokenCursor) : Token := c.tokens[c.pos]?.getD beyond

def atEnd (c : TokenCursor) : Bool := c.peek.kind = .eof

def advance (c : TokenCursor) : TokenCursor := if c.atEnd then c else ⟨c.tokens, c.pos + 1⟩

/-- Takes a token of the given kind. -/
def accept (kind : TokenKind) (c : TokenCursor) : Bool × TokenCursor :=
  if c.peek.kind = kind then (true, c.advance) else (false, c)

/-- Takes a token that can name something. -/
def takeName (c : TokenCursor) : Option String × TokenCursor :=
  match c.peek.kind.name? with
  | some name => (some name, c.advance)
  | none => (none, c)

/-- Takes a token that has a text and ends no line. -/
def takeLexeme (c : TokenCursor) : Option String × TokenCursor :=
  if c.peek.kind.isLayout then (none, c) else (c.peek.kind.lexeme?, c.advance)

/-- Where the token before the cursor ends. -/
def previousStop (c : TokenCursor) : Nat :=
  match c.pos with
  | 0 => 0
  | n + 1 => (c.tokens[n]?.map (·.span.stop)).getD 0

/-- The tokens that are not used yet. -/
def rest (c : TokenCursor) : List Token := c.tokens.drop c.pos

def move (c : TokenCursor) (n : Nat) : TokenCursor := ⟨c.tokens, c.pos + n⟩

/-- The second cursor lies further on in the same tokens. It has passed neither the last
of them nor an end token. -/
structure Ahead (c d : TokenCursor) : Prop where
  tokens_eq : d.tokens = c.tokens
  pos_lt : c.pos < d.pos
  pos_le : d.pos ≤ c.tokens.length
  passed : ∀ i, c.pos ≤ i → i < d.pos → ∀ t ∈ c.tokens[i]?, t.kind ≠ .eof

section Moves

variable {c d : TokenCursor} {t : Token} {ts : List Token}

@[simp] lemma rest_move (c : TokenCursor) (n : Nat) : (c.move n).rest = c.rest.drop n := by
  rw [rest, rest, move, List.drop_drop]

@[simp] lemma move_move (c : TokenCursor) (m n : Nat) : (c.move m).move n = c.move (m + n) := by
  simp only [move, Nat.add_assoc]

lemma length_rest (c : TokenCursor) : c.rest.length = c.tokens.length - c.pos := by
  rw [rest, List.length_drop]

lemma peek_eq (c : TokenCursor) : c.peek = c.rest.head?.getD beyond := by
  rw [peek, rest, List.head?_drop]

lemma peek_of_rest (h : c.rest = t :: ts) : c.peek = t := by
  rw [peek_eq, h]
  rfl

/-- A test that fails at an end token fails at the end of the list as well. -/
lemma peek_of_head? {P : Token → Prop} (hend : P beyond) (h : ∀ u ∈ c.rest.head?, P u) :
    P c.peek := by
  rw [peek_eq]
  cases hhead : c.rest.head? with
  | none => exact hend
  | some u => exact h u hhead

lemma atEnd_eq_false_iff (c : TokenCursor) :
    c.atEnd = false ↔ ∃ t ts, c.rest = t :: ts ∧ t.kind ≠ .eof := by
  have hpeek : c.atEnd = false ↔ c.peek.kind ≠ .eof := by simp [atEnd]
  rw [hpeek, peek_eq]
  cases h : c.rest with
  | nil => simp [beyond]
  | cons t ts => simp

lemma advance_of_rest (h : c.rest = t :: ts) (ht : t.kind ≠ .eof) : c.advance = c.move 1 := by
  rw [advance, if_neg]
  · rfl
  · rw [Bool.not_eq_true, atEnd_eq_false_iff]
    exact ⟨t, ts, h, ht⟩

lemma accept_of_eq {kind : TokenKind} (h : c.rest = t :: ts) (ht : t.kind = kind)
    (hkind : kind ≠ .eof) : c.accept kind = (true, c.move 1) := by
  rw [accept, peek_of_rest h, if_pos ht, advance_of_rest h (by rwa [ht])]

lemma accept_of_ne {kind : TokenKind} (h : ∀ u ∈ c.rest.head?, u.kind ≠ kind)
    (hkind : kind ≠ .eof) : c.accept kind = (false, c) := by
  rw [accept, if_neg (peek_of_head? (P := (·.kind ≠ kind)) hkind.symm h)]

lemma takeName_of_some {name : String} (h : c.rest = t :: ts) (ht : t.kind.name? = some name) :
    c.takeName = (some name, c.move 1) := by
  simp only [takeName, peek_of_rest h, ht, advance_of_rest h (TokenKind.ne_eof_of_name? ht)]

lemma takeName_of_none (h : ∀ u ∈ c.rest.head?, u.kind.name? = none) :
    c.takeName = (none, c) := by
  have hnone := peek_of_head? (P := (·.kind.name? = none)) rfl h
  simp only [takeName, hnone]

lemma takeLexeme_of_isLayout (h : ∀ u ∈ c.rest.head?, u.kind.isLayout = true) :
    c.takeLexeme = (none, c) := by
  rw [takeLexeme, if_pos (peek_of_head? (P := (·.kind.isLayout = true)) rfl h)]

lemma takeLexeme_of_not_isLayout (h : c.rest = t :: ts) (ht : t.kind.isLayout = false) :
    c.takeLexeme = (t.kind.lexeme?, c.move 1) := by
  rw [takeLexeme, peek_of_rest h, if_neg (by simp [ht]),
    advance_of_rest h (TokenKind.ne_eof_of_isLayout ht)]

/-- A cursor is ahead when it has passed some tokens, none of them an end token. -/
lemma ahead_move {used more : List Token} (h : c.rest = used ++ more) (hne : used ≠ [])
    (hused : ∀ t ∈ used, t.kind ≠ .eof) : c.Ahead (c.move used.length) := by
  have hlength := c.length_rest
  rw [h, List.length_append] at hlength
  have hpos := List.length_pos_iff.mpr hne
  constructor
  case tokens_eq => rfl
  case pos_lt =>
    simp only [move]
    omega
  case pos_le =>
    simp only [move]
    omega
  case passed =>
    intro i hle hlt t ht
    simp only [move] at hlt
    obtain ⟨k, rfl⟩ := Nat.exists_eq_add_of_le hle
    have hk : k < used.length := by omega
    rw [← List.getElem?_drop, ← rest, h, List.getElem?_append_left hk] at ht
    exact hused t (List.mem_of_getElem? ht)

lemma Ahead.length_rest_lt (h : c.Ahead d) : d.rest.length < c.rest.length := by
  have hlt := h.pos_lt
  have hle := h.pos_le
  rw [length_rest, length_rest, h.tokens_eq]
  omega

end Moves

section Loops

variable {α : Type} {turn : TokenCursor → Option (α × TokenCursor)}

/-- A finished run of a loop: turns up to a cursor from which none is made, with what each
of them gave. -/
inductive Loop (turn : TokenCursor → Option (α × TokenCursor)) :
    TokenCursor → List α → TokenCursor → Prop
  | stop {c : TokenCursor} : turn c = none → Loop turn c [] c
  | again {c d last : TokenCursor} {a : α} {found : List α} : turn c = some (a, d) →
      Loop turn d found last → Loop turn c (a :: found) last

/-- Each turn moves the cursor on. -/
def Advances (turn : TokenCursor → Option (α × TokenCursor)) : Prop :=
  ∀ c a d, turn c = some (a, d) → c.Ahead d

/-- Makes turns as long as there are any. -/
def loop (turn : TokenCursor → Option (α × TokenCursor)) (h : Advances turn) (c : TokenCursor) :
    List α × TokenCursor :=
  match hturn : turn c with
  | none => ([], c)
  | some (a, d) =>
    have := (h c a d hturn).length_rest_lt
    let more := loop turn h d
    (a :: more.1, more.2)
termination_by c.rest.length

lemma loop_stop (h : Advances turn) {c : TokenCursor} (hc : turn c = none) :
    loop turn h c = ([], c) := by
  rw [loop]
  split
  · rfl
  · simp_all

lemma loop_again (h : Advances turn) {c d : TokenCursor} {a : α} (hc : turn c = some (a, d)) :
    loop turn h c = (a :: (loop turn h d).1, (loop turn h d).2) := by
  rw [loop]
  split
  · simp_all
  · simp_all

/-- A loop that moves on comes to its end, in no more turns than there are tokens left. -/
theorem Advances.exists_loop (h : Advances turn) (c : TokenCursor) :
    ∃ found last, Loop turn c found last ∧ found.length ≤ c.rest.length := by
  refine ⟨(loop turn h c).1, (loop turn h c).2, ?_⟩
  fun_induction loop turn h c with
  | case1 c hc => exact ⟨Loop.stop hc, Nat.zero_le _⟩
  | case2 c a d hc hlt more ih =>
    have hmore : more.1.length ≤ d.rest.length := ih.2
    refine ⟨Loop.again hc ih.1, ?_⟩
    rw [List.length_cons]
    omega

end Loops

/-- One turn inside of parentheses: a type with the name behind it, or else one token. -/
def paramTurn (c : TokenCursor) : Option (Option Param × TokenCursor) :=
  if inParams c.peek then
    match c.peek.kind.declarable? with
    | none => some (none, c.advance)
    | some p =>
      let named := c.advance.takeName
      some (named.1.map (⟨p.spelling, ·⟩), named.2)
  else none

section Params

variable {c : TokenCursor} {t n : Token} {ts : List Token}

lemma paramTurn_stop (h : ∀ u ∈ c.rest.head?, inParams u = false) : c.paramTurn = none := by
  have hstop := peek_of_head? (P := (inParams · = false)) rfl h
  rw [paramTurn, if_neg (by simp [hstop])]

lemma paramTurn_pair {p : Primitive} {name : String} (h : c.rest = t :: n :: ts)
    (hin : inParams t = true) (ht : t.kind.declarable? = some p)
    (hn : n.kind.name? = some name) :
    c.paramTurn = some (some ⟨p.spelling, name⟩, c.move 2) := by
  have hnext : (c.move 1).rest = n :: ts := by simp [h]
  simp only [paramTurn, peek_of_rest h, if_pos hin, ht,
    advance_of_rest h (Segment.kind_ne_eof_of_inParams hin), takeName_of_some hnext hn, move_move,
    Option.map_some]

/-- A type without a name behind it is passed like any other token. -/
lemma paramTurn_single (h : c.rest = t :: ts) (hin : inParams t = true)
    (hpair : t.kind.declarable? = none ∨ ∀ u ∈ ts.head?, u.kind.name? = none) :
    c.paramTurn = some (none, c.move 1) := by
  rw [paramTurn, peek_of_rest h, if_pos hin,
    advance_of_rest h (Segment.kind_ne_eof_of_inParams hin)]
  cases ht : t.kind.declarable? with
  | none => rfl
  | some p =>
    have hnone : ∀ u ∈ (c.move 1).rest.head?, u.kind.name? = none := by
      simpa [h, ht] using hpair
    simp only [takeName_of_none hnone, Option.map_none]

/-- A turn inside of parentheses uses one or two tokens. -/
lemma paramTurn_moves (h : inParams c.peek = true) : ∃ found used more,
    c.rest = used ++ more ∧ used ≠ [] ∧ (∀ t ∈ used, t.kind ≠ .eof) ∧
      c.paramTurn = some (found, c.move used.length) := by
  obtain ⟨t, ts, hrest⟩ : ∃ t ts, c.rest = t :: ts := by
    apply List.exists_cons_of_ne_nil
    intro hnil
    rw [peek_eq, hnil] at h
    cases h
  have hin : inParams t = true := by rwa [peek_of_rest hrest] at h
  have ht := Segment.kind_ne_eof_of_inParams hin
  by_cases hpair : t.kind.declarable? = none ∨ ∀ u ∈ ts.head?, u.kind.name? = none
  · exact ⟨none, [t], ts, hrest, by simp, by simpa using ht, paramTurn_single hrest hin hpair⟩
  · push Not at hpair
    obtain ⟨hdeclarable, u, hu, hnamed⟩ := hpair
    obtain ⟨p, hp⟩ := Option.ne_none_iff_exists'.mp hdeclarable
    obtain ⟨name, hname⟩ := Option.ne_none_iff_exists'.mp hnamed
    obtain ⟨more, rfl⟩ := List.head?_eq_some_iff.mp hu
    refine ⟨some ⟨p.spelling, name⟩, [t, u], more, hrest, by simp, ?_,
      paramTurn_pair hrest hin hp hname⟩
    simpa using ⟨ht, TokenKind.ne_eof_of_name? hname⟩

theorem paramTurn_advances : Advances paramTurn := by
  intro c param? d hturn
  by_cases hin : inParams c.peek = true
  · obtain ⟨found, used, more, hrest, hne, hused, hmove⟩ := paramTurn_moves hin
    rw [hmove] at hturn
    cases hturn
    exact ahead_move hrest hne hused
  · rw [paramTurn, if_neg hin] at hturn
    cases hturn

/-- The turns inside of parentheses find the parameters, and stop at the first token that
does not belong to them. -/
lemma loop_paramTurn {inside more : List Token} (h : c.rest = inside ++ more)
    (hinside : inside.all inParams = true) (hmore : ∀ u ∈ more.head?, inParams u = false) :
    (loop paramTurn paramTurn_advances c).1.reduceOption = Param.ofTokens inside ∧
      (loop paramTurn paramTurn_advances c).2 = c.move inside.length := by
  fun_induction Param.ofTokens inside generalizing c with
  | case1 t n inside p name hn ht ih =>
    simp only [List.all_cons, Bool.and_eq_true] at hinside
    obtain ⟨hin, -, hinside⟩ := hinside
    have hrest : (c.move 2).rest = inside ++ more := by simp [h]
    obtain ⟨hfound, hlast⟩ := ih hrest hinside
    rw [loop_again _ (paramTurn_pair h hin ht hn)]
    refine ⟨by rw [List.reduceOption_cons_of_some, hfound], ?_⟩
    rw [hlast, move_move, Nat.add_comm]
    rfl
  | case2 t n inside hpair ih =>
    simp only [List.all_cons, Bool.and_eq_true] at hinside ih
    obtain ⟨hin, hinside⟩ := hinside
    have hrest : (c.move 1).rest = n :: inside ++ more := by simp [h]
    obtain ⟨hfound, hlast⟩ := ih hrest hinside
    have hsingle : t.kind.declarable? = none ∨
        ∀ u ∈ (n :: inside ++ more).head?, u.kind.name? = none := by
      cases ht : t.kind.declarable? with
      | none => exact Or.inl rfl
      | some p =>
        refine Or.inr ?_
        simpa using Option.eq_none_iff_forall_ne_some.mpr (hpair p · ht)
    rw [loop_again _ (paramTurn_single h hin hsingle)]
    refine ⟨by rw [List.reduceOption_cons_of_none, hfound], ?_⟩
    rw [hlast, move_move, Nat.add_comm]
    rfl
  | case3 inside hshort =>
    rcases inside with _ | ⟨t, _ | ⟨n, inside⟩⟩
    · rw [List.nil_append] at h
      rw [loop_stop _ (paramTurn_stop (by rwa [h]))]
      exact ⟨rfl, rfl⟩
    · have hin : inParams t = true := by simpa using hinside
      have hnone : ∀ u ∈ more.head?, u.kind.name? = none :=
        fun u hu => Segment.name?_of_not_inParams (hmore u hu)
      have hrest : (c.move 1).rest = more := by simp [h]
      rw [loop_again _ (paramTurn_single h hin (Or.inr hnone)),
        loop_stop _ (paramTurn_stop (by rwa [hrest]))]
      exact ⟨rfl, rfl⟩
    · exact absurd rfl (hshort t n inside)

end Params

/-- The rest of a function: its parameters, and the closing parenthesis if it is there. -/
def function (type name : String) (c : TokenCursor) : Option Declaration × TokenCursor :=
  let params := loop paramTurn paramTurn_advances c.advance
  (some (.function { returnType := type, name, params := params.1.reduceOption }),
    (params.2.accept (.delimiter .rparen)).2)

/-- The rest of a variable: an equals sign and the token behind it, if they are there. -/
def var (type name : String) (c : TokenCursor) : Option Declaration × TokenCursor :=
  match c.accept (.operator .eq) with
  | (true, c) => (some (.var ⟨type, name, c.takeLexeme.1⟩), c.takeLexeme.2)
  | (false, c) => (some (.var ⟨type, name, none⟩), c)

/-- A function or a variable, from its type on. -/
def typed (type : String) (c : TokenCursor) : Option Declaration × TokenCursor :=
  match c.advance.takeName with
  | (none, c) => (none, c)
  | (some name, c) =>
    if c.peek.kind = .delimiter .lparen then c.function type name else c.var type name

/-- An inclusion, from its hash on. It is given up at the first token that does not fit. -/
def inclusion (c : TokenCursor) : Option Declaration × TokenCursor :=
  match c.advance.accept (.keyword (.reserved .directive)) with
  | (false, c) => (none, c)
  | (true, c) =>
    match c.accept (.operator .lt) with
    | (false, c) => (none, c)
    | (true, c) =>
      match c.takeLexeme with
      | (none, c) => (none, c)
      | (some library, c) =>
        match c.accept (.operator .gt) with
        | (false, c) => (none, c)
        | (true, c) => (some (.inclusion ⟨library⟩), c)

/-- Tries for a declaration under the cursor. A token that opens none is passed. -/
def attempt (c : TokenCursor) : Option Declaration × TokenCursor :=
  if c.peek.kind = .delimiter .hash then c.inclusion
  else match c.peek.kind.declarable? with
    | some p => c.typed p.spelling
    | none => (none, c.advance)

/-- A declaration with its span: from the token under the cursor to the last one used. -/
def declaration (c : TokenCursor) : Option (Spanned Declaration) × TokenCursor :=
  let tried := c.attempt
  (tried.1.map (⟨·, c.peek.span.merge (.point tried.2.previousStop)⟩), tried.2)

section Declarations

variable {c : TokenCursor} {t : Token} {ts : List Token} {type name : String}

lemma var_of_plain (h : ∀ u ∈ c.rest.head?, u.kind ≠ .operator .eq) :
    c.var type name = (some (.var ⟨type, name, none⟩), c) := by
  simp only [var, accept_of_ne h (by simp)]

lemma var_of_dangling (h : c.rest = t :: ts) (ht : t.kind = .operator .eq)
    (hts : ∀ u ∈ ts.head?, u.kind.isLayout = true) :
    c.var type name = (some (.var ⟨type, name, none⟩), c.move 1) := by
  have hnext : (c.move 1).rest = ts := by simp [h]
  simp only [var, accept_of_eq h ht (by simp), takeLexeme_of_isLayout (by rwa [hnext])]

lemma var_of_initialized {value : Token} (h : c.rest = t :: value :: ts)
    (ht : t.kind = .operator .eq) (hvalue : value.kind.isLayout = false) :
    c.var type name = (some (.var ⟨type, name, value.kind.lexeme?⟩), c.move 2) := by
  have hnext : (c.move 1).rest = value :: ts := by simp [h]
  simp only [var, accept_of_eq h ht (by simp), takeLexeme_of_not_isLayout hnext hvalue, move_move]

lemma function_eq {inside more : List Token} (h : c.rest = t :: inside ++ more)
    (ht : t.kind = .delimiter .lparen) (hinside : inside.all inParams = true)
    (hmore : ∀ u ∈ more.head?, inParams u = false) :
    c.function type name =
      (some (.function { returnType := type, name, params := Param.ofTokens inside }),
        ((c.move (inside.length + 1)).accept (.delimiter .rparen)).2) := by
  have hnext : (c.move 1).rest = inside ++ more := by simp [h]
  obtain ⟨hfound, hlast⟩ := loop_paramTurn hnext hinside hmore
  simp only [function, advance_of_rest h (by simp [ht]), hfound, hlast, move_move, Nat.add_comm]

lemma typed_of_name? {n : Token} (h : c.rest = t :: n :: ts) (ht : t.kind ≠ .eof)
    (hn : n.kind.name? = some name) :
    c.typed type = if (c.move 2).peek.kind = .delimiter .lparen then (c.move 2).function type name
      else (c.move 2).var type name := by
  have hnext : (c.move 1).rest = n :: ts := by simp [h]
  simp only [typed, advance_of_rest h ht, takeName_of_some hnext hn, move_move]

lemma exists_lexeme? (ht : t.kind.isLayout = false) : ∃ text, t.kind.lexeme? = some text := by
  apply Option.isSome_iff_exists.mp
  rw [TokenKind.lexeme?_isSome]
  exact TokenKind.ne_eof_of_isLayout ht

lemma inclusion_of_whole {word opening library closing : Token}
    (h : c.rest = t :: word :: opening :: library :: closing :: ts)
    (ht : t.kind = .delimiter .hash) (hword : word.kind = .keyword (.reserved .directive))
    (hopening : opening.kind = .operator .lt) (hlibrary : library.kind.isLayout = false)
    (hclosing : closing.kind = .operator .gt) :
    c.inclusion = (some (.inclusion ⟨library.kind.lexeme?.getD ""⟩), c.move 5) := by
  have hone : (c.move 1).rest = word :: opening :: library :: closing :: ts := by simp [h]
  have htwo : (c.move 2).rest = opening :: library :: closing :: ts := by simp [h]
  have hthree : (c.move 3).rest = library :: closing :: ts := by simp [h]
  have hfour : (c.move 4).rest = closing :: ts := by simp [h]
  obtain ⟨text, htext⟩ := exists_lexeme? hlibrary
  simp only [inclusion, advance_of_rest h (by simp [ht]), accept_of_eq hone hword (by simp),
    move_move, accept_of_eq htwo hopening (by simp), takeLexeme_of_not_isLayout hthree hlibrary,
    htext, accept_of_eq hfour hclosing (by simp), Option.getD_some]

/-- A directive that breaks off is given up where it does. -/
lemma inclusion_of_directive {used more : List Token} (h : c.rest = t :: used ++ more)
    (ht : t.kind = .delimiter .hash) (hused : expect inclusionTests (used ++ more) = (used, more))
    (hshort : used.length < 4) : c.inclusion = (none, c.move (used.length + 1)) := by
  have hpassed := Segment.expect_passed inclusionTests (used ++ more)
  have hstopped : ∀ test ∈ inclusionTests[(expect inclusionTests (used ++ more)).1.length]?,
      ∀ u ∈ (expect inclusionTests (used ++ more)).2.head?, test u.kind = false :=
    fun _ => Segment.expect_stopped
  rw [hused] at hpassed hstopped
  have hadvance := advance_of_rest h (by simp [ht])
  rcases used with _ | ⟨word, _ | ⟨opening, _ | ⟨library, _ | ⟨_, _⟩⟩⟩⟩
  all_goals
    simp only [inclusionTests, List.length_cons, List.length_nil, List.take_succ_cons,
      List.take_zero, List.forall₂_cons, decide_eq_true_eq, List.getElem?_cons_zero,
      List.getElem?_cons_succ, Option.mem_some_iff, forall_eq', decide_eq_false_iff_not]
      at hpassed hstopped
  · have hone : (c.move 1).rest = more := by simp [h]
    simp only [inclusion, hadvance, accept_of_ne (by rwa [hone]) (by simp)]
    rfl
  · have hone : (c.move 1).rest = word :: more := by simp [h]
    have htwo : (c.move 2).rest = more := by simp [h]
    simp only [inclusion, hadvance, accept_of_eq hone hpassed.1 (by simp), move_move,
      accept_of_ne (by rwa [htwo]) (by simp)]
    rfl
  · have hone : (c.move 1).rest = word :: opening :: more := by simp [h]
    have htwo : (c.move 2).rest = opening :: more := by simp [h]
    have hthree : (c.move 3).rest = more := by simp [h]
    have hlayout : ∀ u ∈ more.head?, u.kind.isLayout = true := by simpa using hstopped
    simp only [inclusion, hadvance, accept_of_eq hone hpassed.1 (by simp), move_move,
      accept_of_eq htwo hpassed.2.1 (by simp), takeLexeme_of_isLayout (by rwa [hthree])]
    rfl
  · have hone : (c.move 1).rest = word :: opening :: library :: more := by simp [h]
    have htwo : (c.move 2).rest = opening :: library :: more := by simp [h]
    have hthree : (c.move 3).rest = library :: more := by simp [h]
    have hfour : (c.move 4).rest = more := by simp [h]
    have hlibrary : library.kind.isLayout = false := by simpa using hpassed.2.2.1
    obtain ⟨text, htext⟩ := exists_lexeme? hlibrary
    simp only [inclusion, hadvance, accept_of_eq hone hpassed.1 (by simp), move_move,
      accept_of_eq htwo hpassed.2.1 (by simp), takeLexeme_of_not_isLayout hthree hlibrary, htext,
      accept_of_ne (by rwa [hfour]) (by simp)]
    rfl
  · simp only [List.length_cons] at hshort
    omega

lemma attempt_of_hash (h : c.rest = t :: ts) (ht : t.kind = .delimiter .hash) :
    c.attempt = c.inclusion := by
  rw [attempt, peek_of_rest h, if_pos ht]

lemma attempt_of_declarable? {p : Primitive} (h : c.rest = t :: ts)
    (ht : t.kind.declarable? = some p) : c.attempt = c.typed p.spelling := by
  have hne : t.kind ≠ .delimiter .hash := by
    intro hhash
    simp [hhash] at ht
  simp only [attempt, peek_of_rest h, if_neg hne, ht]

/-- A try finds the segment that fits under the cursor and uses its tokens. -/
theorem attempt_of_fits {s : Segment} {more : List Token} (h : c.rest = s.tokens ++ more)
    (hfits : s.Fits more) (hhead : s.head.kind ≠ .eof) :
    c.attempt = (s.node?, c.move s.tokens.length) := by
  cases hfits with
  | other hhash ht =>
    simp only [attempt, peek_of_rest h, if_neg hhash, ht, advance_of_rest h hhead]
    rfl
  | directive hhash hused hshort =>
    rw [attempt_of_hash h hhash, inclusion_of_directive h hhash hused hshort]
    rfl
  | inclusion hhash hword hopening hlibrary hclosing =>
    rw [attempt_of_hash h hhash, inclusion_of_whole h hhash hword hopening hlibrary hclosing]
    rfl
  | bareType ht hrest =>
    have hnext : (c.move 1).rest = more := by simp [h, Segment.tokens]
    rw [attempt_of_declarable? h ht]
    simp only [typed, advance_of_rest h hhead, takeName_of_none (by rwa [hnext])]
    rfl
  | plain ht hnamed hrest =>
    have hnext : (c.move 2).rest = more := by simp [h, Segment.tokens]
    rw [← hnext] at hrest
    have hparen := peek_of_head? (P := (·.kind ≠ .delimiter .lparen)) (by simp [beyond])
      fun u hu => (hrest u hu).1
    rw [attempt_of_declarable? h ht, typed_of_name? h hhead hnamed, if_neg hparen,
      var_of_plain fun u hu => (hrest u hu).2]
    rfl
  | @dangling t named equals p name _ ht hnamed hequals hrest =>
    have hnext : (c.move 2).rest = equals :: more := by simp [h, Segment.tokens]
    rw [attempt_of_declarable? h ht, typed_of_name? h hhead hnamed, peek_of_rest hnext,
      if_neg (by simp [hequals]), var_of_dangling hnext hequals hrest, move_move]
    rfl
  | @initialized t named equals value p name _ ht hnamed hequals hvalue =>
    have hnext : (c.move 2).rest = equals :: value :: more := by simp [h, Segment.tokens]
    rw [attempt_of_declarable? h ht, typed_of_name? h hhead hnamed, peek_of_rest hnext,
      if_neg (by simp [hequals]), var_of_initialized hnext hequals hvalue, move_move]
    rfl
  | @closed t named opening closing inside p name _ ht hnamed hopening hinside hclosing =>
    have hnext : (c.move 2).rest = opening :: inside ++ closing :: more := by
      simp [h, Segment.tokens]
    have hlast : (c.move (2 + (inside.length + 1))).rest = closing :: more := by
      rw [← move_move, rest_move, hnext]
      simp
    rw [attempt_of_declarable? h ht, typed_of_name? h hhead hnamed, peek_of_rest hnext,
      if_pos hopening, function_eq hnext hopening hinside (by simp [inParams, hclosing]),
      move_move, accept_of_eq hlast hclosing (by simp), move_move]
    refine Prod.ext rfl (congrArg c.move ?_)
    simp only [Segment.tokens, List.length_append, List.length_cons, List.length_nil]
    omega
  | @unclosed t named opening inside p name _ ht hnamed hopening hinside hrest =>
    have hnext : (c.move 2).rest = opening :: inside ++ more := by simp [h, Segment.tokens]
    have hlast : (c.move (2 + (inside.length + 1))).rest = more := by
      rw [← move_move, rest_move, hnext]
      simp
    have hstop : ∀ u ∈ more.head?, inParams u = false ∧ u.kind ≠ .delimiter .rparen := by
      intro u hu
      simp [inParams, hrest u hu]
    rw [attempt_of_declarable? h ht, typed_of_name? h hhead hnamed, peek_of_rest hnext,
      if_pos hopening, function_eq hnext hopening hinside fun u hu => (hstop u hu).1, move_move,
      accept_of_ne (by rw [hlast]; exact fun u hu => (hstop u hu).2) (by simp)]
    refine Prod.ext rfl (congrArg c.move ?_)
    simp only [Segment.tokens, List.length_cons]
    omega

/-- Behind the tokens of a segment, the last stop is that of its last token. -/
lemma previousStop_move {s : Segment} {more : List Token} (h : c.rest = s.tokens ++ more) :
    (c.move s.tokens.length).previousStop = (s.tail.getLastD s.head).span.stop := by
  have hlast : c.tokens[c.pos + s.tail.length]? = some (s.tail.getLastD s.head) := by
    rw [← List.getElem?_drop, ← rest, h, List.getElem?_append_left (by simp [Segment.tokens]),
      List.getLastD_eq_getLast?, ← List.getLast?_cons, List.getLast?_eq_getElem?]
    rfl
  have hstop : (c.move s.tokens.length).previousStop =
      (c.tokens[c.pos + s.tail.length]?.map (·.span.stop)).getD 0 := rfl
  rw [hstop, hlast]
  rfl

/-- The cursor finds the declaration of the segment under it, with the same span. -/
theorem declaration_of_fits {s : Segment} {more : List Token} (h : c.rest = s.tokens ++ more)
    (hfits : s.Fits more) (hhead : s.head.kind ≠ .eof) :
    c.declaration = (s.declaration?, c.move s.tokens.length) := by
  have hpeek : c.peek = s.head := peek_of_rest h
  rw [declaration, attempt_of_fits h hfits hhead]
  simp only [previousStop_move h, hpeek]
  rfl

/-- A try finds the first segment of the tokens left. -/
theorem declaration_eq (h : c.rest = t :: ts) (ht : t.kind ≠ .eof) :
    c.declaration =
      ((Segment.first t ts).1.declaration?, c.move (Segment.first t ts).1.tokens.length) := by
  rw [← Segment.first_append t ts] at h
  exact declaration_of_fits h (Segment.first_fits t ts) (by rwa [Segment.first_head])

/-- What a try for a declaration can do where tokens are left. -/
lemma declaration_cases (h : c.atEnd = false) : ∃ (s : Segment) (more : List Token),
    c.rest = s.tokens ++ more ∧ s.head.kind ≠ .eof ∧ s.Fits more ∧
      c.declaration = (s.declaration?, c.move s.tokens.length) := by
  obtain ⟨t, ts, hrest, ht⟩ := (atEnd_eq_false_iff c).mp h
  refine ⟨(Segment.first t ts).1, (Segment.first t ts).2, ?_, ?_, Segment.first_fits t ts,
    declaration_eq hrest ht⟩
  · rw [hrest, Segment.first_append]
  · rwa [Segment.first_head]

end Declarations

end TokenCursor

end Scaffold
