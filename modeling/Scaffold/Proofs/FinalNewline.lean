import Scaffold.Proofs.Fragments
import Scaffold.Skeleton.Render

/-!
# How skeletons end

Every skeleton that is not empty ends with a newline, the end of its last line. Whether
it ends with a second one is a matter of that line's text. Only one kind of last line has
a text that can end with a newline: a Python assignment, since its value stands last and
comes from the source as it is.
-/
namespace Scaffold

/-- Texts that end with one newline and not with two. -/
def EndsInOneNewline (text : List Char) : Prop := ['\n'] <:+ text ∧ ¬['\n', '\n'] <:+ text

instance (text : List Char) : Decidable (EndsInOneNewline text) :=
  inferInstanceAs (Decidable (_ ∧ _))

lemma newline_suffix_append {back : List Char} (front : List Char) (h : back ≠ []) :
    ['\n'] <:+ front ++ back ↔ ['\n'] <:+ back := by
  constructor
  · intro hsuffix
    exact List.suffix_of_suffix_length_le hsuffix (List.suffix_append front back)
      (List.length_pos_iff.mpr h)
  · intro hsuffix
    exact hsuffix.trans (List.suffix_append front back)

/-- A text that ends with a line ends with two newlines if the text of the line ends with one. -/
lemma Line.newlines_of_suffix {unit text : List Char} {l : Line} (hl : l.text ≠ [])
    (h : l.write unit <:+ text) :
    ['\n'] <:+ text ∧ (['\n', '\n'] <:+ text ↔ ['\n'] <:+ l.text) := by
  obtain ⟨before, rfl⟩ := h
  have htext : before ++ l.write unit =
      (before ++ marginChars unit l.level ++ l.text) ++ ['\n'] := by
    simp [write, lineChars]
  rw [htext, ← newline_suffix_append (before ++ marginChars unit l.level) hl]
  refine ⟨List.suffix_append _ _, ?_⟩
  have htwo : ['\n', '\n'] = ['\n'] ++ ['\n'] := rfl
  rw [htwo, List.suffix_append_inj_of_length_eq rfl, and_iff_left rfl]

/-- Variables with a value that ends with a newline. -/
def Declaration.TrailsNewline : Declaration → Prop
  | var v => ∃ value ∈ v.initializer?, ['\n'] <:+ value.toList
  | _ => False

lemma Python.default_not_newline (type : String) :
    ¬['\n'] <:+ (spellingOf type).default.toList := by
  unfold spellingOf
  cases Primitive.ofSpelling? type with
  | none => decide
  | some p => cases p <;> decide

/-- An assignment ends with its value, which may be empty. -/
lemma Python.newline_suffix_assignment (v : Variable) :
    ['\n'] <:+ (v.name ++ " = " ++ v.initializer?.getD (spellingOf v.type).default).toList ↔
      (Declaration.var v).TrailsNewline := by
  have hvalue : ∀ value : String,
      ['\n'] <:+ (v.name ++ " = " ++ value).toList ↔ ['\n'] <:+ value.toList := by
    intro value
    rw [String.toList_append]
    by_cases hempty : value.toList = []
    · rw [hempty, List.append_nil, String.toList_append, newline_suffix_append _ (by decide)]
      decide
    · exact newline_suffix_append _ hempty
  rw [hvalue, Declaration.TrailsNewline]
  cases v.initializer? with
  | none => simpa using Python.default_not_newline v.type
  | some value => simp

namespace Step

lemma getLast?_allLines_block (level : Nat) (header : String) (body : List Step) :
    (allLines level [block header body]).getLast? = some ⟨level, ['\x7d']⟩ := by
  simp [allLines_block, List.getLast?_cons]

lemma getLast?_allLines_suite (level : Nat) (header s : String) :
    (allLines level [suite header [line s]]).getLast? = some ⟨level + 1, s.toList⟩ := by
  simp [allLines, outlineAll, outline, Item.lines]

end Step

namespace Target

/-- The last lines of functions hold nothing of the function. -/
lemma lastLine_function {t : Target} {f : Function} {l : Line}
    (h : (t.lines (.function f)).getLast? = some l) :
    l.text ∈ [['\x7d'], "pass".toList, "print(\"Program translated from C\")".toList] := by
  simp only [lines, rule] at h
  cases t with
  | java =>
    have hline : l = ⟨0, ['\x7d']⟩ := by
      split at h <;> exact Option.some.inj (h.symm.trans (Step.getLast?_allLines_block ..))
    simp [hline]
  | python =>
    split at h
    · have hline := h.symm.trans (Step.getLast?_allLines_suite ..)
      simp [Option.some.inj hline]
    · have hline := h.symm.trans (Step.getLast?_allLines_suite ..)
      simp [Option.some.inj hline]

/-- The last line of a member has a text, and this ends with a newline only if it is an
assignment of such a value. -/
lemma newline_suffix_lastLine {t : Target} {d : Declaration} {l : Line}
    (h : (t.lines d).getLast? = some l) :
    l.text ≠ [] ∧ (['\n'] <:+ l.text ↔ t = python ∧ d.TrailsNewline) := by
  cases d with
  | inclusion i => contradiction
  | function f =>
    have htexts : ∀ text ∈ [['\x7d'], "pass".toList,
        "print(\"Program translated from C\")".toList], text ≠ [] ∧ ¬['\n'] <:+ text := by decide
    obtain ⟨hne, hline⟩ := htexts l.text (lastLine_function h)
    exact ⟨hne, by simp [hline, Declaration.TrailsNewline]⟩
  | var v =>
    cases t with
    | java =>
      obtain ⟨front, hfront⟩ : ∃ front, l.text = front ++ [';'] := by
        cases h
        exact ⟨_, String.toList_append⟩
      have hline : ¬['\n'] <:+ l.text := by
        rw [hfront, newline_suffix_append front (by decide)]
        decide
      exact ⟨by simp [hfront], by simp [hline]⟩
    | python =>
      obtain rfl : l = ⟨0, (v.name ++ " = " ++
          v.initializer?.getD (Python.spellingOf v.type).default).toList⟩ := by
        cases h
        rfl
      exact ⟨by simp, by simpa using Python.newline_suffix_assignment v⟩

end Target

/-- Programs with no entry point whose last member is a value that ends with a newline, in a
target that writes nothing behind it. -/
def Program.TrailsNewline (p : Program) (t : Target) : Prop :=
  t = .python ∧ (¬∃ f ∈ p.functions, f.name = "main") ∧
    ∃ d ∈ p.members.getLast?, d.TrailsNewline

namespace Program

lemma newline_suffix_lastLine {p : Program} {t : Target} {l : Line} (h : p.lastLine? t = some l) :
    l.text ≠ [] ∧ (['\n'] <:+ l.text ↔ p.TrailsNewline t) := by
  rw [lastLine?] at h
  rw [TrailsNewline]
  cases hd : p.members.getLast? with
  | none =>
    rw [hd] at h
    obtain ⟨s, hs, rfl⟩ := Option.map_eq_some_iff.mp h
    obtain ⟨i, -, hi⟩ := List.mem_filterMap.mp (List.mem_of_getLast? hs)
    rw [Target.eq_of_importLine? hi]
    exact ⟨by decide, iff_of_false (by decide) (by simp)⟩
  | some d =>
    simp only [hd] at h
    split at h
    · rename_i hentry
      cases h
      have hline : t.closingLine.text ≠ [] ∧ ¬['\n'] <:+ t.closingLine.text := by
        cases t <;> decide
      exact ⟨hline.1, iff_of_false hline.2 (by simp [hentry])⟩
    · rename_i hentry
      have hline := Target.newline_suffix_lastLine h
      simpa [hentry] using hline

/-- Skeletons that are not empty end with one newline, and with a second one only behind a value
that ends with it. -/
theorem endsInOneNewline_render_iff (p : Program) (t : Target) (style : Style) :
    (p.render t style = "" ∨ ['\n'] <:+ (p.render t style).toList) ∧
    ((p.render t style = "" ∨ EndsInOneNewline (p.render t style).toList) ↔
      ¬p.TrailsNewline t) := by
  cases hlast : p.lastLine? t with
  | none =>
    obtain ⟨hmembers, -⟩ := (p.lastLine?_eq_none_iff t).mp hlast
    have hempty := (p.render_eq_empty_iff t style).mpr ((p.lastLine?_eq_none_iff t).mp hlast)
    simp [hempty, TrailsNewline, hmembers]
  | some l =>
    obtain ⟨htext, hline⟩ := newline_suffix_lastLine hlast
    obtain ⟨hone, htwo⟩ := Line.newlines_of_suffix htext (lastLine_suffix_render style hlast)
    have hne : p.render t style ≠ "" := by
      intro hempty
      rw [hempty] at hone
      exact absurd hone (by decide)
    simp only [hne, false_or, EndsInOneNewline, hone, true_and, htwo, hline]

end Program

/-- The output for a source is empty or ends with one newline, but for a last value that ends
with a newline itself. -/
theorem endsInOneNewline_compile_iff (source : String) (target : Target) (style : Style) :
    let c := compile source target style
    (c.output = "" ∨ ['\n'] <:+ c.output.toList) ∧
    ((c.output = "" ∨ EndsInOneNewline c.output.toList) ↔ ¬c.program.TrailsNewline target) :=
  (parse (lex source)).endsInOneNewline_render_iff target style

/-- A string that holds a line break becomes a value that ends with it. -/
theorem not_endsInOneNewline_compile :
    let c := compile "int x = \"\n\";" .python {}
    c.output = "x = \n\n" ∧ ¬(c.output = "" ∨ EndsInOneNewline c.output.toList) := by
  decide +kernel

end Scaffold
