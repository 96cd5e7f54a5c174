/-!
# Words and numerals

A word is a run of letters, digits and underscores, and goes on over a dot that
leads to another word start. A numeral is a run of digits with at most one dot,
which may stand at its end. Both functions take the characters after the first
one and split them where the word or numeral ends.
-/
namespace Scaffold

namespace Word

def starts (c : Char) : Bool := c.isAlpha || c = '_'

def continues (c : Char) : Bool := c.isAlphanum || c = '_'

theorem continues_of_starts {c : Char} (h : starts c = true) : continues c = true := by
  simp only [starts, continues, Char.isAlphanum, Bool.or_eq_true, decide_eq_true_eq] at h ⊢
  rcases h with h | h
  · exact Or.inl (Or.inl h)
  · exact Or.inr h

theorem length_lt_of_dropWhile {α : Type} {p : α → Bool} {l rest : List α} {a : α}
    (h : l.dropWhile p = a :: rest) : rest.length < l.length := by
  have hl := congrArg List.length (List.takeWhile_append_dropWhile (p := p) (l := l))
  rw [h, List.length_append, List.length_cons] at hl
  omega

/-- The rest of a word, and what follows it. -/
def split (cs : List Char) : List Char × List Char :=
  match h : cs.dropWhile continues with
  | '.' :: d :: rest =>
    if starts d then
      have := length_lt_of_dropWhile h
      let tail := split (d :: rest)
      (cs.takeWhile continues ++ '.' :: tail.1, tail.2)
    else (cs.takeWhile continues, '.' :: d :: rest)
  | rest => (cs.takeWhile continues, rest)
termination_by cs.length

/-- Splitting loses no character. -/
theorem split_append (cs : List Char) : (split cs).1 ++ (split cs).2 = cs := by
  fun_induction split cs with
  | case1 cs d rest h hd _ tail ih =>
    have hcs := List.takeWhile_append_dropWhile (p := continues) (l := cs)
    rw [h] at hcs
    simp only [List.append_assoc, List.cons_append]
    rw [show tail.1 ++ tail.2 = d :: rest from ih]
    exact hcs
  | case2 cs d rest h hd =>
    have hcs := List.takeWhile_append_dropWhile (p := continues) (l := cs)
    rw [h] at hcs
    exact hcs
  | case3 cs h => exact List.takeWhile_append_dropWhile

end Word

namespace Numeral

/-- The rest of a numeral, and what follows it. -/
def split (cs : List Char) : List Char × List Char :=
  match cs.dropWhile Char.isDigit with
  | '.' :: rest => (cs.takeWhile Char.isDigit ++ '.' :: rest.takeWhile Char.isDigit,
      rest.dropWhile Char.isDigit)
  | rest => (cs.takeWhile Char.isDigit, rest)

/-- Splitting loses no character. -/
theorem split_append (cs : List Char) : (split cs).1 ++ (split cs).2 = cs := by
  have hcs := List.takeWhile_append_dropWhile (p := Char.isDigit) (l := cs)
  unfold split
  split
  · rename_i rest h
    rw [h] at hcs
    simpa using hcs
  · exact hcs

end Numeral

end Scaffold
