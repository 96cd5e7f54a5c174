import Mathlib.Tactic.Lemma
import Scaffold.Token.Printer

/-!
# Words and numerals against their grammars

`Word.split` and `Numeral.split` find the end of a word or a numeral by looking
ahead. The grammars say which texts are words and numerals without any text
behind them. Each function is characterized by its grammar and by the texts that
would make the word or numeral go on.
-/
namespace Scaffold

namespace Word

/-- What can stand behind the first character of a word. -/
inductive Tail : List Char → Prop
  | nil : Tail []
  | character {c : Char} {cs : List Char} : continues c = true → Tail cs → Tail (c :: cs)
  | dot {d : Char} {cs : List Char} : starts d = true → Tail cs → Tail ('.' :: d :: cs)

/-- Texts that make a word in front of them longer. -/
def goesOn : List Char → Bool
  | [] => false
  | c :: cs => continues c || c = '.' && cs.head?.any starts

@[simp] theorem continues_dot : continues '.' = false := by decide

@[simp] theorem starts_dot : starts '.' = false := by decide

@[simp] theorem goesOn_nil : goesOn [] = false := rfl

lemma goesOn_cons_eq_false {c : Char} (h : continues c = false) (hdot : c ≠ '.')
    (cs : List Char) : goesOn (c :: cs) = false := by
  simp [goesOn, h, hdot]

/-- A text cut off earlier makes no word longer that the whole text does not. -/
lemma goesOn_of_append {cs ds : List Char} (h : goesOn (cs ++ ds) = false) :
    goesOn cs = false := by
  cases cs with
  | nil => rfl
  | cons c cs =>
    cases cs with
    | nil => simp_all [goesOn]
    | cons d cs => simpa [goesOn] using h

/-- The run of word characters ends the word. -/
lemma split_of_run_stops {cs : List Char} (h : goesOn (cs.dropWhile continues) = false) :
    split cs = (cs.takeWhile continues, cs.dropWhile continues) := by
  rw [split]
  split
  · rename_i d rest hdrop
    have hd : starts d = false := by simpa [hdrop, goesOn] using h
    rw [if_neg (by simp [hd]), hdrop]
  · rfl

/-- The run of word characters ends at a dot inside the word. -/
lemma split_of_run_dot {cs rest : List Char} {d : Char}
    (h : cs.dropWhile continues = '.' :: d :: rest) (hd : starts d = true) :
    split cs = (cs.takeWhile continues ++ '.' :: (split (d :: rest)).1,
      (split (d :: rest)).2) := by
  rw [split]
  split
  · rename_i d' rest' hdrop
    rw [h] at hdrop
    cases hdrop
    rw [if_pos hd]
  · rename_i hne
    exact absurd h (hne d rest)

lemma split_of_goesOn_eq_false {cs : List Char} (h : goesOn cs = false) :
    split cs = ([], cs) := by
  have hrun : cs.takeWhile continues = [] ∧ cs.dropWhile continues = cs := by
    cases cs with
    | nil => simp
    | cons c cs =>
      simp only [goesOn, Bool.or_eq_false_iff] at h
      simp [h.1]
  rw [split_of_run_stops (by rw [hrun.2]; exact h), hrun.1, hrun.2]

/-- The three ways in which a text can begin, seen from inside a word. -/
lemma goesOn_cases (cs : List Char) :
    goesOn cs = false ∨ (∃ c ds, cs = c :: ds ∧ continues c = true) ∨
      ∃ d ds, cs = '.' :: d :: ds ∧ starts d = true := by
  cases cs with
  | nil => exact Or.inl rfl
  | cons c cs =>
    by_cases hc : continues c = true
    · exact Or.inr (Or.inl ⟨c, cs, rfl, hc⟩)
    · by_cases hdot : c = '.' ∧ cs.head?.any starts = true
      · obtain ⟨rfl, hd⟩ := hdot
        cases cs with
        | nil => simp at hd
        | cons d cs => exact Or.inr (Or.inr ⟨d, cs, rfl, by simpa using hd⟩)
      · refine Or.inl ?_
        simp only [goesOn, Bool.or_eq_false_iff]
        exact ⟨by simpa using hc, by simpa using hdot⟩

lemma split_character {c : Char} (h : continues c = true) (cs : List Char) :
    split (c :: cs) = (c :: (split cs).1, (split cs).2) := by
  have htake : (c :: cs).takeWhile continues = c :: cs.takeWhile continues := by simp [h]
  have hdrop : (c :: cs).dropWhile continues = cs.dropWhile continues := by simp [h]
  rcases goesOn_cases (cs.dropWhile continues) with hstop | ⟨d, ds, hrun, hd⟩ | ⟨d, ds, hrun, hd⟩
  · rw [split_of_run_stops (by rw [hdrop]; exact hstop), split_of_run_stops hstop, htake, hdrop]
  · have hhead := List.head?_dropWhile_not continues cs
    rw [hrun] at hhead
    simp [hd] at hhead
  · rw [split_of_run_dot (by rw [hdrop]; exact hrun) hd, split_of_run_dot hrun hd, htake]
    rfl

lemma split_dot {d : Char} (h : starts d = true) (cs : List Char) :
    split ('.' :: d :: cs) = ('.' :: d :: (split cs).1, (split cs).2) := by
  have hdrop : ('.' :: d :: cs).dropWhile continues = '.' :: d :: cs := by simp
  rw [split_of_run_dot hdrop h, split_character (continues_of_starts h)]
  simp

/-- A character that the word goes on with belongs to what is split off. -/
lemma split_of_goesOn {c : Char} {cs : List Char} (h : goesOn (c :: cs) = true) :
    split (c :: cs) = (c :: (split cs).1, (split cs).2) := by
  rcases goesOn_cases (c :: cs) with hstop | ⟨d, ds, heq, hd⟩ | ⟨d, ds, heq, hd⟩
  · simp [hstop] at h
  · obtain ⟨rfl, rfl⟩ := List.cons.inj heq
    exact split_character hd cs
  · obtain ⟨rfl, rfl⟩ := List.cons.inj heq
    rw [split_dot hd, split_character (continues_of_starts hd)]

/-- The word taken is a word tail, and the text behind it does not make it longer. -/
theorem split_spec (cs : List Char) : Tail (split cs).1 ∧ goesOn (split cs).2 = false := by
  induction h : cs.length using Nat.strongRecOn generalizing cs with
  | ind n ih =>
    rcases goesOn_cases cs with hstop | ⟨c, ds, rfl, hc⟩ | ⟨d, ds, rfl, hd⟩
    · rw [split_of_goesOn_eq_false hstop]
      exact ⟨Tail.nil, hstop⟩
    · obtain ⟨htail, hrest⟩ := ih ds.length (by simp at h; omega) ds rfl
      rw [split_character hc]
      exact ⟨Tail.character hc htail, hrest⟩
    · obtain ⟨htail, hrest⟩ := ih ds.length (by simp at h; omega) ds rfl
      rw [split_dot hd]
      exact ⟨Tail.dot hd htail, hrest⟩

/-- A word tail is taken whole when the text behind it does not make it longer. -/
theorem split_append_of_tail {more rest : List Char} (h : Tail more)
    (hrest : goesOn rest = false) : split (more ++ rest) = (more, rest) := by
  induction h with
  | nil => exact split_of_goesOn_eq_false hrest
  | character hc _ ih => rw [List.cons_append, split_character hc, ih]
  | dot hd _ ih => rw [List.cons_append, List.cons_append, split_dot hd, ih]

/-- Seen from the dots, a word tail is a run of word characters and then whole segments. -/
lemma splitOn_of_tail {cs : List Char} (h : Tail cs) :
    ∃ run segments, Text.splitOn '.' cs = run :: segments ∧
      run.all continues = true ∧ segments.all isSegment = true := by
  induction h with
  | nil => exact ⟨[], [], rfl, rfl, rfl⟩
  | @character c cs hc _ ih =>
    obtain ⟨run, segments, hcs, hrun, hsegments⟩ := ih
    have hne : c ≠ '.' := by
      rintro rfl
      simp at hc
    refine ⟨c :: run, segments, ?_, by simp [hc, hrun], hsegments⟩
    rw [Text.splitOn, if_neg hne, hcs]
  | @dot d cs hd _ ih =>
    obtain ⟨run, segments, hcs, hrun, hsegments⟩ := ih
    have hne : d ≠ '.' := by
      rintro rfl
      simp at hd
    refine ⟨[], (d :: run) :: segments, ?_, rfl, ?_⟩
    · rw [Text.splitOn, if_pos rfl, Text.splitOn, if_neg hne, hcs]
    · simp [isSegment, hd, hrun, hsegments]

/-- A text whose first segment is not empty starts with the first character of it. -/
lemma exists_cons_of_splitOn {cs run : List Char} {d : Char} {segments : List (List Char)}
    (h : Text.splitOn '.' cs = (d :: run) :: segments) : ∃ ds, cs = d :: ds := by
  cases cs with
  | nil => simp [Text.splitOn] at h
  | cons e cs =>
    rw [Text.splitOn] at h
    split at h
    · simp at h
    · split at h <;> simp_all

lemma tail_of_splitOn {cs run : List Char} {segments : List (List Char)}
    (hcs : Text.splitOn '.' cs = run :: segments) (hrun : run.all continues = true)
    (hsegments : segments.all isSegment = true) : Tail cs := by
  induction cs generalizing run segments with
  | nil => exact Tail.nil
  | cons c cs ih =>
    obtain ⟨next, others, hnext⟩ := List.exists_cons_of_ne_nil (Text.splitOn_ne_nil '.' cs)
    by_cases hc : c = '.'
    · subst hc
      rw [Text.splitOn, if_pos rfl, hnext] at hcs
      obtain ⟨rfl, rfl⟩ := List.cons.inj hcs
      simp only [List.all_cons, Bool.and_eq_true] at hsegments
      obtain ⟨hsegment, hothers⟩ := hsegments
      cases next with
      | nil => simp [isSegment] at hsegment
      | cons d run =>
        simp only [isSegment, Bool.and_eq_true] at hsegment
        obtain ⟨hd, hrun⟩ := hsegment
        obtain ⟨ds, rfl⟩ := exists_cons_of_splitOn hnext
        cases ih hnext (by simp [continues_of_starts hd, hrun]) hothers with
        | character _ htail => exact Tail.dot hd htail
        | dot => simp at hd
    · rw [Text.splitOn, if_neg hc, hnext] at hcs
      obtain ⟨rfl, rfl⟩ := List.cons.inj hcs
      simp only [List.all_cons, Bool.and_eq_true] at hrun
      exact Tail.character hrun.1 (ih hnext hrun.2 hsegments)

/-- A word is a first character and a word tail. -/
theorem isWord_cons_iff (c : Char) (cs : List Char) :
    isWord (c :: cs) = true ↔ starts c = true ∧ Tail cs := by
  obtain ⟨next, others, hnext⟩ := List.exists_cons_of_ne_nil (Text.splitOn_ne_nil '.' cs)
  rw [isWord, Text.splitOn]
  by_cases hc : c = '.'
  · subst hc
    simp [isSegment]
  · rw [if_neg hc, hnext]
    simp only [List.all_cons, isSegment, Bool.and_eq_true, and_assoc]
    refine and_congr_right fun _ => ⟨fun h => tail_of_splitOn hnext h.1 h.2, ?_⟩
    intro htail
    obtain ⟨run, segments, hcs, hrun, hsegments⟩ := splitOn_of_tail htail
    rw [hnext] at hcs
    obtain ⟨rfl, rfl⟩ := List.cons.inj hcs
    exact ⟨hrun, hsegments⟩

lemma isWord_nil : isWord [] = false := by decide

end Word

/-- A run of a class is cut off exactly where the class ends. -/
lemma takeWhile_append_of_run {α : Type} {p : α → Bool} (run rest : List α)
    (hrun : run.all p = true) (hrest : rest.head?.any p = false) :
    (run ++ rest).takeWhile p = run ∧ (run ++ rest).dropWhile p = rest := by
  have hmem : ∀ a ∈ run, p a = true := List.all_eq_true.mp hrun
  rw [List.takeWhile_append_of_pos hmem, List.dropWhile_append_of_pos hmem]
  cases rest with
  | nil => simp
  | cons a rest =>
    have ha : p a = false := by simpa using hrest
    simp [ha]

namespace Numeral

/-- What can stand behind the first digit of a numeral. -/
inductive Tail : List Char → Prop
  | whole {digits : List Char} : digits.all Char.isDigit = true → Tail digits
  | fraction {digits decimals : List Char} : digits.all Char.isDigit = true →
      decimals.all Char.isDigit = true → Tail (digits ++ '.' :: decimals)

lemma Tail.digit {more : List Char} {d : Char} (h : Tail more) (hd : d.isDigit = true) :
    Tail (more ++ [d]) := by
  cases h with
  | whole hdigits => exact Tail.whole (by simp [hdigits, hd])
  | fraction hdigits hdecimals =>
    rw [List.append_assoc, List.cons_append]
    exact Tail.fraction hdigits (by simp [hdecimals, hd])

lemma Tail.dot {more : List Char} (h : Tail more) (hdot : more.contains '.' = false) :
    Tail (more ++ ['.']) := by
  cases h with
  | whole hdigits => exact Tail.fraction hdigits rfl
  | fraction => simp at hdot

/-- Texts that make a numeral in front of them longer; it takes a dot only once. -/
def goesOn (numeral rest : List Char) : Bool :=
  rest.head?.any fun c => c.isDigit || c = '.' && !numeral.contains '.'

@[simp] theorem goesOn_nil (numeral : List Char) : goesOn numeral [] = false := rfl

lemma goesOn_cons_eq_false {c : Char} (h : c.isDigit = false) (hdot : c ≠ '.')
    (numeral cs : List Char) : goesOn numeral (c :: cs) = false := by
  simp [goesOn, h, hdot]

lemma goesOn_of_append {numeral cs ds : List Char} (h : goesOn numeral (cs ++ ds) = false) :
    goesOn numeral cs = false := by
  cases cs with
  | nil => rfl
  | cons c cs => simpa [goesOn] using h

lemma dot_not_mem_of_all_isDigit {cs : List Char} (h : cs.all Char.isDigit = true) :
    '.' ∉ cs := by
  intro hmem
  have hdigit := List.all_eq_true.mp h _ hmem
  revert hdigit
  decide

/-- A numeral is a first digit and a numeral tail. -/
theorem isNumeral_cons_iff (c : Char) (cs : List Char) :
    isNumeral (c :: cs) = true ↔ c.isDigit = true ∧ Tail cs := by
  have hdot : '.'.isDigit = false := by decide
  constructor
  · intro h
    have hcs := List.takeWhile_append_dropWhile (p := Char.isDigit) (l := cs)
    by_cases hc : c.isDigit = true
    · refine ⟨hc, ?_⟩
      simp only [isNumeral, List.takeWhile_cons, List.dropWhile_cons, hc, if_true,
        Bool.and_eq_true] at h
      obtain ⟨-, h⟩ := h
      cases hdrop : cs.dropWhile Char.isDigit with
      | nil =>
        rw [hdrop, List.append_nil] at hcs
        rw [← hcs]
        exact Tail.whole List.all_takeWhile
      | cons d decimals =>
        simp only [hdrop, Bool.and_eq_true, decide_eq_true_eq] at h
        obtain ⟨rfl, hdecimals⟩ := h
        rw [← hcs, hdrop]
        exact Tail.fraction List.all_takeWhile hdecimals
    · simp [isNumeral, hc] at h
  · rintro ⟨hc, h⟩
    cases h with
    | whole hdigits =>
      have hall : (c :: cs).all Char.isDigit = true := by
        simp only [List.all_cons, hc, hdigits, Bool.and_self]
      have hrun := takeWhile_append_of_run (c :: cs) [] hall rfl
      rw [List.append_nil] at hrun
      simp [isNumeral, hrun]
    | @fraction digits decimals hdigits hdecimals =>
      have hall : (c :: digits).all Char.isDigit = true := by
        simp only [List.all_cons, hc, hdigits, Bool.and_self]
      have hrun := takeWhile_append_of_run (c :: digits) ('.' :: decimals) hall (by simp [hdot])
      rw [List.cons_append] at hrun
      simp [isNumeral, hrun, hdecimals]

/-- The numeral taken is a numeral tail, and the text behind it does not make it longer. -/
theorem split_spec (c : Char) (cs : List Char) :
    Tail (split cs).1 ∧ goesOn (c :: (split cs).1) (split cs).2 = false := by
  have hhead := List.head?_dropWhile_not Char.isDigit
  unfold split
  split
  · rename_i rest hdrop
    refine ⟨Tail.fraction List.all_takeWhile List.all_takeWhile, ?_⟩
    have hrest := hhead rest
    cases hd : rest.dropWhile Char.isDigit with
    | nil => rfl
    | cons d ds =>
      rw [hd] at hrest
      simp_all [goesOn]
  · rename_i hne
    refine ⟨Tail.whole List.all_takeWhile, ?_⟩
    have hrest := hhead cs
    cases hd : cs.dropWhile Char.isDigit with
    | nil => rfl
    | cons d ds =>
      have hdot : d ≠ '.' := by
        rintro rfl
        exact hne ds hd
      rw [hd] at hrest
      simp_all [goesOn]

/-- A numeral tail is taken whole when the text behind it does not make it longer. -/
theorem split_append_of_tail {c : Char} {more rest : List Char} (hc : c.isDigit = true)
    (h : Tail more) (hrest : goesOn (c :: more) rest = false) :
    split (more ++ rest) = (more, rest) := by
  have hdot : '.'.isDigit = false := by decide
  have hdigit : rest.head?.any Char.isDigit = false := by
    cases rest with
    | nil => rfl
    | cons d ds =>
      simp only [goesOn, List.head?_cons, Option.any_some, Bool.or_eq_false_iff] at hrest
      simpa using hrest.1
  cases h with
  | whole hdigits =>
    obtain ⟨htake, hdrop⟩ := takeWhile_append_of_run more rest hdigits hdigit
    rw [split, htake, hdrop]
    split
    · have hmem : '.' ∉ c :: more := by
        apply dot_not_mem_of_all_isDigit
        simp [hc, hdigits]
      simp [goesOn, hdot, hmem] at hrest
    · rfl
  | @fraction digits decimals hdigits hdecimals =>
    obtain ⟨htake, hdrop⟩ := takeWhile_append_of_run digits ('.' :: (decimals ++ rest))
      hdigits (by simp [hdot])
    obtain ⟨htake', hdrop'⟩ := takeWhile_append_of_run decimals rest hdecimals hdigit
    rw [List.append_assoc, List.cons_append, split, htake, hdrop]
    simp [htake', hdrop']

end Numeral

end Scaffold
