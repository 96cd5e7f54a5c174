import Scaffold.Proofs.CursorReading

/-!
# A cursor gets on

Where tokens are left, a try for a declaration moves the cursor on, by two tokens at least
if it finds one. It stays within the list and before the first end token. So does each
turn of the loop over parameters. Both loops come to an end for that reason alone, and the
number of declarations is bounded by half the number of tokens.
-/
namespace Scaffold

namespace TokenCursor

/-- One turn at the top. The cursor is moved on by a token if a try has left it in place. -/
def turn (c : TokenCursor) : Option (Option (Spanned Declaration) × TokenCursor) :=
  if c.atEnd then none
  else
    let tried := c.declaration
    some (tried.1, if tried.2.pos = c.pos then tried.2.advance else tried.2)

variable {c d : TokenCursor}

theorem declaration_ahead (h : c.atEnd = false) : c.Ahead c.declaration.2 := by
  obtain ⟨s, more, hrest, hhead, hfits, hfound⟩ := declaration_cases h
  rw [hfound]
  exact ahead_move hrest (by simp [Segment.tokens]) (hfits.tokens_ne_eof hhead)

theorem two_le_of_declaration (h : c.atEnd = false) (hsome : c.declaration.1.isSome = true) :
    c.pos + 2 ≤ c.declaration.2.pos := by
  obtain ⟨s, more, -, -, hfits, hfound⟩ := declaration_cases h
  rw [hfound, Segment.declaration?, Option.isSome_map] at hsome
  have htwo := hfits.two_le_length hsome
  rw [hfound]
  simp only [move]
  omega

/-- A try never leaves the cursor in place, so a turn is nothing but a try. -/
lemma turn_eq (h : c.atEnd = false) : c.turn = some c.declaration := by
  have hlt := (declaration_ahead h).pos_lt
  rw [turn, if_neg (by simp [h])]
  simp only
  rw [if_neg (by omega)]

lemma turn_eq_none_iff (c : TokenCursor) : c.turn = none ↔ c.atEnd = true := by
  cases h : c.atEnd with
  | false => simp [turn_eq h]
  | true => simp [turn, h]

lemma declaration_of_turn {found : Option (Spanned Declaration)} (h : c.turn = some (found, d)) :
    c.atEnd = false ∧ c.declaration = (found, d) := by
  have hmore : c.atEnd = false := by
    rw [← Bool.not_eq_true, ← turn_eq_none_iff, h]
    simp
  rw [turn_eq hmore] at h
  exact ⟨hmore, Option.some.inj h⟩

theorem turn_advances : Advances turn := by
  intro c found d hturn
  obtain ⟨hmore, hfound⟩ := declaration_of_turn hturn
  have hahead := declaration_ahead hmore
  rwa [hfound] at hahead

lemma declarations_parse_rest (h : c.atEnd = true) : (parse c.rest).declarations = [] := by
  cases hrest : c.rest with
  | nil => simp [parse]
  | cons t ts =>
    have ht : t.kind = .eof := by
      by_contra hne
      have hmore := (atEnd_eq_false_iff c).mpr ⟨t, ts, hrest, hne⟩
      simp [hmore] at h
    simp [parse, Segment.split_eof ht]

section Runs

variable {last : TokenCursor} {found : List (Option (Spanned Declaration))}

/-- All turns together find the declarations of the tokens that are left. -/
theorem reduceOption_of_loop (h : Loop turn c found last) :
    found.reduceOption = (parse c.rest).declarations := by
  induction h with
  | @stop c hstop =>
    have hend := (turn_eq_none_iff c).mp hstop
    rw [declarations_parse_rest hend, List.reduceOption_nil]
  | @again c d last a found hturn hloop ih =>
    obtain ⟨hmore, hfound⟩ := declaration_of_turn hturn
    obtain ⟨s, more, hrest, hhead, hfits, hsegment⟩ := declaration_cases hmore
    rw [hfound] at hsegment
    cases hsegment
    have hnext : (c.move s.tokens.length).rest = more := by simp [hrest]
    rw [hrest, declarations_parse_of_fits hhead hfits, ← hnext, ← ih]
    cases s.declaration? <;> rfl

/-- Of the tokens left, two are used for each declaration. -/
theorem two_mul_length_le_of_loop (h : Loop turn c found last) :
    2 * found.reduceOption.length ≤ c.rest.length := by
  induction h with
  | stop => simp
  | @again c d last a found hturn hloop ih =>
    have hahead := turn_advances c a d hturn
    have hlt := hahead.length_rest_lt
    cases a with
    | none =>
      rw [List.reduceOption_cons_of_none]
      omega
    | some node =>
      obtain ⟨hmore, hfound⟩ := declaration_of_turn hturn
      have htwo : c.pos + 2 ≤ d.pos := by
        have hmoved := two_le_of_declaration hmore (by rw [hfound]; rfl)
        rwa [hfound] at hmoved
      have hle := hahead.pos_le
      rw [length_rest, hahead.tokens_eq] at ih
      rw [List.reduceOption_cons_of_some, List.length_cons, length_rest]
      omega

end Runs

end TokenCursor

/-- Reading with a cursor that never stays in place and never runs over the end. -/
structure GetsOn (ts : List Token) : Prop where
  /-- A try finds the first segment of the tokens left and uses the tokens of it. -/
  segment : ∀ (c : TokenCursor) (t : Token) (more : List Token), c.tokens = ts →
    c.rest = t :: more → t.kind ≠ .eof → c.declaration =
      ((Segment.first t more).1.declaration?, c.move (Segment.first t more).1.tokens.length)
  /-- A try for a declaration moves on, within the tokens and before the first end token. -/
  forward : ∀ c : TokenCursor, c.tokens = ts → c.atEnd = false → c.Ahead c.declaration.2
  /-- A declaration uses two tokens at least. -/
  two : ∀ c : TokenCursor, c.tokens = ts → c.atEnd = false → c.declaration.1.isSome = true →
    c.pos + 2 ≤ c.declaration.2.pos
  /-- Each turn inside of parentheses moves on in the same way. -/
  params_forward : ∀ c : TokenCursor, c.tokens = ts → c.atEnd = false →
    c.peek.kind ≠ .delimiter .rparen → ∃ param? d, c.paramTurn = some (param?, d) ∧ c.Ahead d
  /-- The step for a try that has left the cursor in place is never made. -/
  in_place : ∀ c : TokenCursor, c.tokens = ts → c.atEnd = false →
    c.declaration.2.pos ≠ c.pos ∧ c.turn = some c.declaration
  params_end : ∀ c : TokenCursor, c.tokens = ts → ∃ found last,
    TokenCursor.Loop TokenCursor.paramTurn c found last ∧ found.length ≤ ts.length - c.pos
  turns_end : ∀ c : TokenCursor, c.tokens = ts → ∃ found last,
    TokenCursor.Loop TokenCursor.turn c found last ∧ found.length ≤ ts.length - c.pos
  /-- What the turns from the first token on have found is what the tokens are read as. -/
  found : ∀ found last, TokenCursor.Loop TokenCursor.turn ⟨ts, 0⟩ found last →
    found.reduceOption = (parse ts).declarations
  bounded : 2 * (parse ts).declarations.length ≤ ts.length

/-- Reading gets on in every token list. -/
theorem cursor_getsOn (ts : List Token) : GetsOn ts := by
  constructor
  case segment =>
    rintro c t more rfl hrest ht
    exact TokenCursor.declaration_eq hrest ht
  case forward =>
    rintro c rfl hmore
    exact TokenCursor.declaration_ahead hmore
  case two =>
    rintro c rfl hmore hsome
    exact TokenCursor.two_le_of_declaration hmore hsome
  case params_forward =>
    rintro c rfl hmore hparen
    have hin : Segment.inParams c.peek = true := by
      have heof : c.peek.kind ≠ .eof := by simpa [TokenCursor.atEnd] using hmore
      simp [Segment.inParams, hparen, heof]
    obtain ⟨param?, used, -, -, -, -, hturn⟩ := TokenCursor.paramTurn_moves hin
    exact ⟨param?, _, hturn, TokenCursor.paramTurn_advances c param? _ hturn⟩
  case in_place =>
    rintro c rfl hmore
    have hlt := (TokenCursor.declaration_ahead hmore).pos_lt
    exact ⟨by omega, TokenCursor.turn_eq hmore⟩
  case params_end =>
    rintro c rfl
    rw [← c.length_rest]
    exact TokenCursor.paramTurn_advances.exists_loop c
  case turns_end =>
    rintro c rfl
    rw [← c.length_rest]
    exact TokenCursor.turn_advances.exists_loop c
  case found =>
    intro found last hloop
    exact TokenCursor.reduceOption_of_loop hloop
  case bounded =>
    obtain ⟨found, last, hloop, -⟩ := TokenCursor.turn_advances.exists_loop ⟨ts, 0⟩
    have hfound : found.reduceOption = (parse ts).declarations :=
      TokenCursor.reduceOption_of_loop hloop
    rw [← hfound]
    exact TokenCursor.two_mul_length_le_of_loop hloop

end Scaffold
