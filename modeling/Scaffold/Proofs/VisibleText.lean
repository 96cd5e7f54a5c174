import Scaffold.Proofs.Fragments
import Scaffold.Text.Split

/-!
# What a style cannot change

The width of a level and the number of blank lines only change the margins and the empty
lines of a skeleton. The rest, seen line by line, belongs to the program and the name of
the class, even where a name or a value of the program brings line breaks and spaces of
its own.
-/
namespace Scaffold

namespace Text

/-- The lines of a text without the spaces they begin with, less those that are empty then. -/
def visibleLines (text : List Char) : List (List Char) :=
  ((splitOn '\n' text).map (List.dropWhile (· = ' '))).filter (· ≠ [])

lemma visibleLines_append (front back : List Char) :
    visibleLines (front ++ '\n' :: back) = visibleLines front ++ visibleLines back := by
  simp only [visibleLines, splitOn_append_cons, List.map_append, List.filter_append]

@[simp] lemma visibleLines_nil : visibleLines [] = [] := rfl

lemma visibleLines_space (text : List Char) : visibleLines (' ' :: text) = visibleLines text := by
  obtain ⟨part, parts, hp⟩ := List.exists_cons_of_ne_nil (splitOn_ne_nil '\n' text)
  simp [visibleLines, splitOn, hp]

lemma visibleLines_spaces {margin : List Char} (h : ∀ c ∈ margin, c = ' ') (text : List Char) :
    visibleLines (margin ++ text) = visibleLines text := by
  induction margin with
  | nil => rfl
  | cons c margin ih =>
    obtain ⟨rfl, hmargin⟩ := List.forall_mem_cons.mp h
    rw [List.cons_append, visibleLines_space, ih hmargin]

lemma visibleLines_newlines (count : Nat) (text : List Char) :
    visibleLines (List.replicate count '\n' ++ text) = visibleLines text := by
  induction count with
  | zero => rfl
  | succ count ih =>
    rw [List.replicate_succ, List.cons_append, ← ih]
    exact visibleLines_append [] _

end Text

open Text

/-- What can be seen of a line. -/
def Line.visible (l : Line) : List (List Char) := visibleLines l.text

namespace Step

variable {unit : List Char}

lemma visibleLines_marginChars (hunit : ∀ c ∈ unit, c = ' ') (level : Nat) (text : List Char) :
    visibleLines (marginChars unit level ++ text) = visibleLines text :=
  visibleLines_spaces (fun c hc => hunit c (mem_of_mem_marginChars hc)) text

lemma visibleLines_lineChars (hunit : ∀ c ∈ unit, c = ' ') (level : Nat)
    (line text : List Char) :
    visibleLines (lineChars unit level line ++ text) = visibleLines line ++ visibleLines text := by
  rw [lineChars, List.append_assoc, List.append_assoc, visibleLines_marginChars hunit]
  exact visibleLines_append line text

/-- Steps show their lines, whatever follows them. -/
theorem visibleLines_writeAll (hunit : ∀ c ∈ unit, c = ' ') (level : Nat) (ss : List Step)
    (text : List Char) : visibleLines (writeAll unit level ss ++ text) =
      (allLines level ss).flatMap Line.visible ++ visibleLines text := by
  rw [writeAll, allLines]
  induction outlineAll level ss with
  | nil => rfl
  | cons item items ih =>
    rw [List.flatMap_cons, List.append_assoc]
    cases item with
    | line depth line =>
      rw [Item.write, visibleLines_lineChars hunit, ih]
      simp [Item.lines, Line.visible]
    | margin depth =>
      rw [Item.write, visibleLines_marginChars hunit, ih]
      rfl
    | blank =>
      exact (visibleLines_newlines 1 _).trans ih

lemma allLines_append {opened level : Nat} {ss : List Step} (h : areBalanced opened ss = true)
    (hlevel : opened ≤ level) (more : List Step) :
    allLines level (ss ++ more) = allLines level ss ++ allLines (level - opened) more := by
  rw [allLines, outlineAll_append h hlevel, List.flatMap_append, allLines, allLines]

lemma allLines_blanks (level count : Nat) (rest : List Step) :
    allLines level (blanks count :: rest) = allLines level rest := by
  simp [allLines, outlineAll, outline, levelAfter, Item.lines]

lemma intercalate_nil_eq_flatten {α : Type} (parts : List (List α)) :
    [].intercalate parts = parts.flatten := by
  induction parts with
  | nil => rfl
  | cons part parts ih =>
    by_cases hparts : parts = []
    · simp [hparts]
    · rw [List.intercalate_cons_of_ne_nil hparts, ih, List.append_nil, List.flatten_cons]

/-- Blank lines between groups of steps are no lines of theirs. -/
lemma allLines_separate (level gap : Nat) {groups : List (List Step)}
    (h : ∀ group ∈ groups, areBalanced 0 group = true) :
    allLines level (separate gap groups) = groups.flatMap (allLines level) := by
  have hgap : (List.replicate gap (Item.lines .blank)).flatten = [] := by simp [Item.lines]
  rw [allLines, flatMap_outlineAll_separate _ level gap h, hgap, intercalate_nil_eq_flatten]
  rfl

end Step

namespace Target

variable {style style' : Style}

/-- The lines of a skeleton depend on the style by the name of the class only. -/
lemma allLines_body (t : Target) (p : Program) (h : style.className = style'.className) :
    Step.allLines 0 (t.body style p) = Step.allLines 0 (t.body style' p) := by
  have hmembers := t.areBalanced_of_mem_members p.nodes
  have hlines : ∀ level, Step.allLines level (Step.separate style.blankLines
      (p.nodes.filterMap t.member?)) = Step.allLines level (Step.separate style'.blankLines
        (p.nodes.filterMap t.member?)) := by
    intro level
    rw [Step.allLines_separate level _ hmembers, Step.allLines_separate level _ hmembers]
  simp only [body]
  split
  · cases t with
    | java =>
      simp only [enclose, Java.enclose, Step.allLines_block, h, hlines]
    | python =>
      rw [enclose, Python.enclose, Python.enclose,
        Step.allLines_append (Step.areBalanced_separate _ hmembers) (Nat.zero_le _),
        Step.allLines_append (Step.areBalanced_separate _ hmembers) (Nat.zero_le _), hlines,
        Step.allLines_blanks, Step.allLines_blanks]
  · exact hlines 0

lemma allLines_skeleton (t : Target) (p : Program) (h : style.className = style'.className) :
    Step.allLines 0 (t.skeleton style p) = Step.allLines 0 (t.skeleton style' p) := by
  have hlines := Step.areBalanced_lines (p.includes.filterMap t.importLine?)
  simp only [skeleton]
  split
  · rfl
  split
  · exact allLines_body t p h
  · rw [Step.allLines_append hlines (Nat.zero_le _), Step.allLines_append hlines (Nat.zero_le _),
      Step.allLines_blanks, Step.allLines_blanks, Nat.sub_zero, allLines_body t p h]

/-- The name of the class counts only for an enclosing class. -/
lemma skeleton_congr {t : Target} {p : Program} (hlines : style.blankLines = style'.blankLines)
    (hname : style.className = style'.className ∨ t = python ∨
      ¬∃ f ∈ p.functions, f.name = "main") : t.skeleton style p = t.skeleton style' p := by
  have hbody : t.body style p = t.body style' p := by
    simp only [body, Program.isSome_entryPoint?, hlines]
    split
    · rename_i hentry
      cases t with
      | java =>
        have hclass : style.className = style'.className := by simpa [hentry] using hname
        simp only [enclose, Java.enclose, hclass]
      | python => simp only [enclose, Python.enclose, hlines]
    · rfl
  simp only [skeleton, hbody, hlines]

end Target

namespace Program

variable {style style' : Style}

/-- What can be seen of a skeleton are its lines. -/
lemma visibleLines_render (p : Program) (t : Target) (style : Style) :
    visibleLines (p.render t style).toList =
      (Step.allLines 0 (t.skeleton style p)).flatMap Line.visible := by
  have hunit : ∀ c ∈ style.unit, c = ' ' := fun _ => Style.eq_space_of_mem_unit
  have hvisible := Step.visibleLines_writeAll hunit 0 (t.skeleton style p) []
  rw [List.append_nil, visibleLines_nil, List.append_nil] at hvisible
  rw [toList_render, hvisible]

lemma render_congr_style {p : Program} {t : Target}
    (hwidth : min style.indentWidth Page.maxIndent = min style'.indentWidth Page.maxIndent)
    (hskeleton : t.skeleton style p = t.skeleton style' p) :
    p.render t style = p.render t style' := by
  rw [render, render, hskeleton, Page.ofWidth, Page.ofWidth, hwidth]

/-- Two styles with one class name show the same. Widths beyond the limit, and the class name
where there is no class, make no difference at all. -/
theorem render_of_styles (p : Program) (t : Target) (style style' : Style) :
    (style.className = style'.className →
      visibleLines (p.render t style).toList = visibleLines (p.render t style').toList) ∧
    (∀ width, 16 ≤ style.indentWidth → 16 ≤ width →
      p.render t { style with indentWidth := width } = p.render t style) ∧
    (∀ name, (t = .python ∨ ¬∃ f ∈ p.functions, f.name = "main") →
      p.render t { style with className := name } = p.render t style) := by
  refine ⟨?_, ?_, ?_⟩
  · intro hname
    rw [visibleLines_render, visibleLines_render, t.allLines_skeleton p hname]
  · intro width hstyle hwidth
    refine render_congr_style ?_ (Target.skeleton_congr rfl (Or.inl rfl))
    simp only [Page.maxIndent]
    omega
  · intro name hclass
    exact render_congr_style rfl (Target.skeleton_congr rfl (Or.inr hclass))

/-- A class name and a value that break their lines, in a narrow and in a wide style. -/
theorem render_of_styles_spread :
    let ds : List Declaration := [.var ⟨"int", "x", some " a\n\n   b "⟩, .inclusion ⟨"stdio.h"⟩,
      .function { returnType := "int", name := "main", params := [] }]
    let p : Program := ⟨ds.map (⟨·, .point 0⟩)⟩
    let narrow : Style := ⟨0, 0, "A\n  B"⟩
    let wide : Style := ⟨20, 3, "A\n  B"⟩
    p.render .java narrow ≠ p.render .java wide ∧
      visibleLines (p.render .java narrow).toList = visibleLines (p.render .java wide).toList ∧
      p.render .java { wide with indentWidth := 16 } = p.render .java wide ∧
      p.render .python { wide with className := "C" } = p.render .python wide := by
  intro ds p narrow wide
  obtain ⟨hvisible, -, -⟩ := render_of_styles p .java narrow wide
  obtain ⟨-, hwidth, -⟩ := render_of_styles p .java wide wide
  obtain ⟨-, -, hname⟩ := render_of_styles p .python wide wide
  exact ⟨by decide +kernel, hvisible rfl, hwidth 16 (by decide) (by decide), hname "C" (.inl rfl)⟩

end Program

end Scaffold
