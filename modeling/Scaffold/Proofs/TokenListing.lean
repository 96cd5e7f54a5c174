import Mathlib.Tactic.SplitIfs
import Scaffold.Command.Run
import Scaffold.Proofs.UniqueDecoding

/-!
# The listing of tokens

A listing shows tokens one a line: two offsets in columns, the category, and the
lexeme between quotes. Each of these can be told from what follows it, and escaping
leaves no newline inside of a line, so the tokens can be read off the listing whatever
texts they hold.
-/
namespace Scaffold

namespace Text

lemma digitChar_inj {m n : Nat} (hm : m < 16) (hn : n < 16) (h : m.digitChar = n.digitChar) :
    m = n := by
  have hall : ∀ m < 16, ∀ n < 16, m.digitChar = n.digitChar → m = n := by decide
  exact hall m hm n hn h

/-- A number can be read off its digits, in every base that has a character for each of them. -/
lemma toDigits_inj {base m n : Nat} (hone : 1 < base) (hbase : base ≤ 16)
    (h : Nat.toDigits base m = Nat.toDigits base n) : m = n := by
  induction m using Nat.strongRecOn generalizing n with
  | ind m ih =>
    rw [Nat.toDigits_eq_if hone, Nat.toDigits_eq_if (n := n) hone] at h
    by_cases hm : m < base <;> by_cases hn : n < base
    · rw [if_pos hm, if_pos hn] at h
      exact digitChar_inj (by omega) (by omega) (List.singleton_inj.mp h)
    · rw [if_pos hm, if_neg hn] at h
      have hlength := congrArg List.length h
      simp [Nat.toDigits_ne_nil] at hlength
    · rw [if_neg hm, if_pos hn] at h
      have hlength := congrArg List.length h
      simp [Nat.toDigits_ne_nil] at hlength
    · rw [if_neg hm, if_neg hn] at h
      obtain ⟨hfront, hlast⟩ := List.append_inj' h rfl
      have hdiv := ih (m / base) (Nat.div_lt_self (by omega) hone) hfront
      have hlt := Nat.mod_lt m (show base > 0 by omega)
      have hlt' := Nat.mod_lt n (show base > 0 by omega)
      have hmod := digitChar_inj (by omega) (by omega) (List.singleton_inj.mp hlast)
      rw [← Nat.div_add_mod m base, ← Nat.div_add_mod n base, hdiv, hmod]

/-- A character that is no digit is none of the digits of a number. -/
lemma not_mem_toDigits {base : Nat} (hone : 1 < base) {c : Char}
    (hc : ∀ digit : Nat, digit.digitChar ≠ c) (n : Nat) : c ∉ Nat.toDigits base n := by
  induction n using Nat.strongRecOn with
  | ind n ih =>
    rw [Nat.toDigits_eq_if hone]
    split
    · simpa using (hc n).symm
    · rw [List.mem_append, not_or]
      exact ⟨ih (n / base) (Nat.div_lt_self (by omega) hone), by simpa using (hc _).symm⟩

/-- The characters that are escaped by one letter each. -/
def letterEscapes : List (Char × Char) :=
  [('\"', '\"'), ('\\', '\\'), ('\x00', '0'), ('\t', 't'), ('\n', 'n'), ('\r', 'r')]

/-- The ways to write a character between quotes. Which characters are written by their code
is left open. -/
inductive Escaped : Char → List Char → Prop
  | plain {c : Char} : c ≠ '\"' → c ≠ '\\' → c ≠ '\n' → Escaped c [c]
  | letter {c l : Char} : (c, l) ∈ letterEscapes → Escaped c ['\\', l]
  | code (c : Char) : Escaped c ('\\' :: 'u' :: '\x7b' :: (hex c.toNat ++ ['\x7d']))

theorem escaped_escape (c : Char) : Escaped c (escape c) := by
  unfold escape
  split_ifs with hquote hback hnull htab hline hreturn hhidden
  · subst hquote
    exact Escaped.letter (by decide)
  · subst hback
    exact Escaped.letter (by decide)
  · subst hnull
    exact Escaped.letter (by decide)
  · subst htab
    exact Escaped.letter (by decide)
  · subst hline
    exact Escaped.letter (by decide)
  · subst hreturn
    exact Escaped.letter (by decide)
  · exact Escaped.code c
  · exact Escaped.plain hquote hback hline

namespace Escaped

variable {c d : Char} {cs ds r s : List Char}

lemma letter_inj {l : Char} (hc : (c, l) ∈ letterEscapes) (hd : (d, l) ∈ letterEscapes) :
    c = d := by
  have hall : ∀ p ∈ letterEscapes, ∀ q ∈ letterEscapes, p.2 = q.2 → p.1 = q.1 := by decide
  exact hall (c, l) hc (d, l) hd rfl

lemma letter_ne {l : Char} (h : (c, l) ∈ letterEscapes) : l ≠ 'u' ∧ l ≠ '\n' := by
  have hall : ∀ p ∈ letterEscapes, p.2 ≠ 'u' ∧ p.2 ≠ '\n' := by decide
  exact hall (c, l) h

/-- The code of a character can be told from what follows its brace. -/
lemma code_inj (h : hex c.toNat ++ '\x7d' :: r = hex d.toNat ++ '\x7d' :: s) : c = d ∧ r = s := by
  have hrun : ∀ n, (hex n).all (· ≠ '\x7d') = true := by
    intro n
    have hbrace : '\x7d' ∉ hex n := not_mem_toDigits (by decide) (by simp) n
    rw [List.all_eq_true]
    intro a ha
    simpa using fun heq : a = '\x7d' => hbrace (heq ▸ ha)
  obtain ⟨hcode, hrest⟩ := run_append_inj h (hrun _) (hrun _) (by simp) (by simp)
  exact ⟨Char.toNat_inj.mp (toDigits_inj (by decide) (by decide) hcode), (List.cons.inj hrest).2⟩

/-- An escaped character can be told from what follows it. -/
theorem append_inj (hc : Escaped c cs) (hd : Escaped d ds) (h : cs ++ r = ds ++ s) :
    c = d ∧ r = s := by
  cases hc with
  | plain _ hback _ =>
    cases hd with
    | plain => simpa using h
    | letter | code => exact absurd (List.cons.inj h).1 hback
  | letter hl =>
    cases hd with
    | plain _ hback _ => exact absurd (List.cons.inj h).1.symm hback
    | letter hl' =>
      obtain ⟨rfl, rfl⟩ := by simpa using h
      exact ⟨letter_inj hl hl', rfl⟩
    | code => exact absurd (List.cons.inj (List.cons.inj h).2).1 (letter_ne hl).1
  | code =>
    cases hd with
    | plain _ hback _ => exact absurd (List.cons.inj h).1.symm hback
    | letter hl => exact absurd (List.cons.inj (List.cons.inj h).2).1.symm (letter_ne hl).1
    | code => exact code_inj (by simpa using h)

lemma newline_not_mem (h : Escaped c cs) : '\n' ∉ cs := by
  cases h with
  | plain _ _ hline => simpa using hline.symm
  | letter hl => simpa using (letter_ne hl).2.symm
  | code =>
    have hcode : '\n' ∉ hex c.toNat := not_mem_toDigits (by decide) (by simp) _
    simpa using hcode

lemma head?_append_ne_quote (h : Escaped c cs) (r : List Char) :
    (cs ++ r).head? ≠ some '\"' := by
  cases h with
  | plain hquote => simpa using hquote
  | letter | code => simp

end Escaped

lemma separable_escape : Separable escape [] (fun _ => True) (fun r => r.head? = some '\"') id where
  item_inj _ _ _ _ h := (escaped_escape _).append_inj (escaped_escape _) h
  not_isTail_item r _ := (escaped_escape _).head?_append_ne_quote r
  not_isTail_sep r _ := (escaped_escape _).head?_append_ne_quote r

/-- A quoted text can be told from what follows it. -/
theorem quote_append_inj {a b : String} {r s : List Char} (h : quote a ++ r = quote b ++ s) :
    a = b ∧ r = s := by
  simp only [quote, List.cons_append, List.append_assoc, List.cons.injEq, true_and] at h
  obtain ⟨htext, hrest⟩ :=
    separable_escape.flatMap_inj (by simp) (by simp) (by simp) (by simp) h
  rw [List.map_id, List.map_id, String.toList_inj] at htext
  exact ⟨htext, by simpa using hrest⟩

lemma newline_not_mem_quote (a : String) : '\n' ∉ quote a := by
  have hescape : ∀ c, '\n' ∉ escape c := fun c => (escaped_escape c).newline_not_mem
  simp [quote, hescape]

end Text

lemma Keyword.spelling_injective {k l : Keyword} (h : k.spelling = l.spelling) : k = l := by
  have hk := ofSpelling?_spelling k
  rw [h, ofSpelling?_spelling] at hk
  exact (Option.some.inj hk).symm

lemma Operator.spelling_injective {o p : Operator} (h : o.spelling = p.spelling) : o = p := by
  have ho := ofChars?_chars o
  rw [String.ofList_inj.mp h, ofChars?_chars] at ho
  exact (Option.some.inj ho).symm

lemma Delimiter.spelling_injective {d e : Delimiter} (h : d.spelling = e.spelling) : d = e := by
  have hchar : d.char = e.char := by simpa [spelling] using congrArg String.toList h
  have hd := ofChar?_char d
  rw [hchar, ofChar?_char] at hd
  exact (Option.some.inj hd).symm

namespace TokenKind

/-- A kind is determined by its category and its lexeme. -/
lemma eq_of_category_eq {k l : TokenKind} (hcategory : k.category = l.category)
    (hlexeme : k.lexeme? = l.lexeme?) : k = l := by
  cases k <;> cases l <;> simp only [category, String.reduceEq] at hcategory
  case keyword.keyword => exact congrArg _ (Keyword.spelling_injective (Option.some.inj hlexeme))
  case operator.operator =>
    exact congrArg _ (Operator.spelling_injective (Option.some.inj hlexeme))
  case delimiter.delimiter =>
    exact congrArg _ (Delimiter.spelling_injective (Option.some.inj hlexeme))
  case ident.ident | number.number | string.string => exact congrArg _ (Option.some.inj hlexeme)
  case newline.newline | eof.eof => rfl

lemma all_isAlpha_category (k : TokenKind) : k.category.toList.all Char.isAlpha = true := by
  cases k <;> simp only [category] <;> decide

lemma category_toList_ne_nil (k : TokenKind) : k.category.toList ≠ [] := by
  cases k <;> simp only [category] <;> decide

/-- The quoted lexeme in parentheses; nothing for the end. -/
def shownLexeme (k : TokenKind) : List Char :=
  k.lexeme?.elim [] fun lexeme => '(' :: Text.quote lexeme ++ [')']

lemma display_eq (k : TokenKind) : k.display = k.category.toList ++ k.shownLexeme := by
  unfold display shownLexeme
  cases k.lexeme? with
  | none => simp
  | some lexeme => simp

lemma shownLexeme_append_inj {k l : TokenKind} {r s : List Char}
    (h : k.shownLexeme ++ '\n' :: r = l.shownLexeme ++ '\n' :: s) :
    k.lexeme? = l.lexeme? ∧ r = s := by
  unfold shownLexeme at h
  cases hk : k.lexeme? with
  | none =>
    cases hl : l.lexeme? with
    | none => simpa [hk, hl] using h
    | some b => simp [hk, hl] at h
  | some a =>
    cases hl : l.lexeme? with
    | none => simp [hk, hl] at h
    | some b =>
      simp only [hk, hl, Option.elim_some, List.cons_append, List.append_assoc, List.cons.injEq,
        true_and] at h
      obtain ⟨rfl, hrest⟩ := Text.quote_append_inj h
      exact ⟨rfl, by simpa using hrest⟩

/-- A kind can be told from the line break behind it. -/
lemma display_append_inj {k l : TokenKind} {r s : List Char}
    (h : k.display ++ '\n' :: r = l.display ++ '\n' :: s) : k = l ∧ r = s := by
  have hstop : ∀ (k : TokenKind) (r : List Char),
      (k.shownLexeme ++ '\n' :: r).head?.any Char.isAlpha = false := by
    intro k r
    unfold shownLexeme
    cases k.lexeme? <;> rfl
  simp only [display_eq, List.append_assoc] at h
  obtain ⟨hcategory, hrest⟩ := run_append_inj h (all_isAlpha_category k) (all_isAlpha_category l)
    (hstop k r) (hstop l s)
  obtain ⟨hlexeme, hrest⟩ := shownLexeme_append_inj hrest
  exact ⟨eq_of_category_eq (String.toList_inj.mp hcategory) hlexeme, hrest⟩

lemma newline_not_mem_display (k : TokenKind) : '\n' ∉ k.display := by
  have hcategory : '\n' ∉ k.category.toList := by
    intro hmem
    have halpha := List.all_eq_true.mp (all_isAlpha_category k) _ hmem
    revert halpha
    decide
  have hlexeme : '\n' ∉ k.shownLexeme := by
    unfold shownLexeme
    cases k.lexeme? with
    | none => simp
    | some lexeme => simpa using Text.newline_not_mem_quote lexeme
  rw [display_eq, List.mem_append]
  exact not_or.mpr ⟨hcategory, hlexeme⟩

lemma head?_display_append (k : TokenKind) (r : List Char) :
    (k.display ++ r).head?.any (· = ' ') = false := by
  obtain ⟨c, cs, hcs⟩ := List.exists_cons_of_ne_nil k.category_toList_ne_nil
  have hc : c.isAlpha = true := List.all_eq_true.mp (all_isAlpha_category k) c (by simp [hcs])
  have hne : c ≠ ' ' := by
    rintro rfl
    revert hc
    decide
  simpa [display_eq, hcs] using hne

end TokenKind

namespace Token

/-- The digits of a number can be told from a text behind them that starts with none. -/
lemma digits_append_inj {m n : Nat} {r s : List Char}
    (h : Nat.toDigits 10 m ++ r = Nat.toDigits 10 n ++ s) (hr : r.head?.any Char.isDigit = false)
    (hs : s.head?.any Char.isDigit = false) : m = n ∧ r = s := by
  have hrun : ∀ n, (Nat.toDigits 10 n).all Char.isDigit = true := fun n =>
    List.all_eq_true.mpr fun c hc => Nat.isDigit_of_mem_toDigits (by decide) (by decide) hc
  obtain ⟨hdigits, hrest⟩ := run_append_inj h (hrun m) (hrun n) hr hs
  exact ⟨Text.toDigits_inj (by decide) (by decide) hdigits, hrest⟩

/-- However many blanks fill a column, what follows them can be told. -/
lemma blanks_append_inj {m n : Nat} {r s : List Char}
    (h : List.replicate m ' ' ++ r = List.replicate n ' ' ++ s)
    (hr : r.head?.any (· = ' ') = false) (hs : s.head?.any (· = ' ') = false) : r = s := by
  exact (run_append_inj h (by simp) (by simp) hr hs).2

lemma head?_digits_append (n : Nat) (r : List Char) :
    (Nat.toDigits 10 n ++ r).head?.any (· = ' ') = false := by
  obtain ⟨c, cs, hcs⟩ := List.exists_cons_of_ne_nil (Nat.toDigits_ne_nil (n := n) (b := 10))
  have hc : c.isDigit = true :=
    Nat.isDigit_of_mem_toDigits (n := n) (b := 10) (by decide) (by decide) (by simp [hcs])
  have hne : c ≠ ' ' := by
    rintro rfl
    revert hc
    decide
  simpa [hcs] using hne

lemma flushRight_append_inj {m n : Nat} {r s : List Char}
    (h : flushRight m ++ '.' :: r = flushRight n ++ '.' :: s) : m = n ∧ r = s := by
  simp only [flushRight, List.leftpad, List.append_assoc] at h
  have hdigits := blanks_append_inj h (head?_digits_append m _) (head?_digits_append n _)
  obtain ⟨hnumber, hrest⟩ := digits_append_inj hdigits rfl rfl
  exact ⟨hnumber, (List.cons.inj hrest).2⟩

lemma flushLeft_append_inj {m n : Nat} {r s : List Char}
    (h : flushLeft m ++ ' ' :: r = flushLeft n ++ ' ' :: s) (hr : r.head?.any (· = ' ') = false)
    (hs : s.head?.any (· = ' ') = false) : m = n ∧ r = s := by
  have hblank : ∀ (k : Nat) (r : List Char),
      List.replicate k ' ' ++ ' ' :: r = List.replicate (k + 1) ' ' ++ r := by
    intro k r
    simp [List.replicate_succ']
  simp only [flushLeft, List.rightpad, List.append_assoc, hblank] at h
  obtain ⟨hnumber, hrest⟩ := digits_append_inj h (by simp [List.replicate_succ])
    (by simp [List.replicate_succ])
  exact ⟨hnumber, blanks_append_inj hrest hr hs⟩

/-- The line of a token in a listing, without the line break. -/
def row (t : Token) : List Char :=
  flushRight t.span.start ++ ['.', '.'] ++ flushLeft t.span.stop ++ ' ' :: t.kind.display

lemma listingLine_eq (t : Token) : t.listingLine = t.row ++ ['\n'] := by
  simp [listingLine, row]

/-- A token can be told from the line break behind it. -/
theorem row_append_inj {t u : Token} {r s : List Char}
    (h : t.row ++ '\n' :: r = u.row ++ '\n' :: s) : t = u ∧ r = s := by
  simp only [row, List.append_assoc, List.cons_append, List.nil_append] at h
  obtain ⟨hstart, hrest⟩ := flushRight_append_inj h
  obtain ⟨hstop, hrest⟩ := flushLeft_append_inj (List.cons.inj hrest).2
    (TokenKind.head?_display_append _ _) (TokenKind.head?_display_append _ _)
  obtain ⟨hkind, hrest⟩ := TokenKind.display_append_inj hrest
  refine ⟨?_, hrest⟩
  obtain ⟨kind, start, stop⟩ := t
  obtain ⟨kind', start', stop'⟩ := u
  simp only at hstart hstop hkind
  rw [hstart, hstop, hkind]

lemma newline_not_mem_row (t : Token) : '\n' ∉ t.row := by
  have hdigits : ∀ n, '\n' ∉ Nat.toDigits 10 n := Text.not_mem_toDigits (by decide) (by simp)
  simp [row, flushRight, flushLeft, List.leftpad, List.rightpad, hdigits,
    TokenKind.newline_not_mem_display]

lemma separable_listingLine : Separable listingLine [] (fun _ => True) (fun r => r = []) id where
  item_inj _ _ _ _ h := row_append_inj (by simpa [listingLine_eq] using h)
  not_isTail_item r _ := by simp [listingLine_eq]
  not_isTail_sep r _ := by simp [listingLine_eq]

theorem listing_inj {ts us : List Token} (h : listing ts = listing us) : ts = us := by
  have hlines : ts.flatMap listingLine ++ [] = us.flatMap listingLine ++ [] := by
    simpa only [List.append_nil] using String.ofList_inj.mp h
  have htokens := (separable_listingLine.flatMap_inj (by simp) (by simp) rfl rfl hlines).1
  simpa using htokens

/-- The lines of a listing are the rows of its tokens. -/
theorem splitOn_listing (ts : List Token) :
    Text.splitOn '\n' (listing ts).toList = ts.map row ++ [[]] := by
  rw [listing, String.toList_ofList]
  induction ts with
  | nil => rfl
  | cons t ts ih =>
    rw [List.flatMap_cons, listingLine_eq, List.append_assoc, List.singleton_append,
      Text.splitOn_append_cons, ih, Text.splitOn_of_not_mem t.newline_not_mem_row]
    rfl

end Token

/-- The printed listing of tokens tells the tokens, of whatever kinds, texts and spans: it has one
line for each of them, and no two tokens share a line. -/
theorem dumpTokens_lossless (host : Host) :
    Function.Injective (host.dumpTokens false) ∧ Function.Injective Token.row ∧
      ∀ ts : List Token, ∃ text, host.dumpTokens false ts = .ok text ∧
        Text.splitOn '\n' text.toList = ts.map Token.row ++ [[]] := by
  refine ⟨fun ts us h => ?_, fun t u h => ?_, fun ts => ⟨_, rfl, Token.splitOn_listing ts⟩⟩
  · exact Token.listing_inj (Except.ok.inj h)
  · exact (Token.row_append_inj (r := []) (s := []) (by rw [h])).1

end Scaffold
