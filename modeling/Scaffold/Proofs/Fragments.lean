import Mathlib.Tactic.SplitIfs
import Scaffold.Proofs.LayoutText

/-!
# Skeletons made of fragments

A declaration has the same text wherever it stands: its fragment is what a page of its
own would hold. A skeleton is its imports, then the fragments of its members in their
order with blank lines between them, and around these the enclosure of a program with an
entry point. Inside of a class every line of a fragment stands one level deeper.
-/
namespace Scaffold

/-- A line of a layout: the level it stands on, and its text. -/
structure Line where
  level : Nat
  text : List Char

/-- The line with its margin and its end. -/
def Line.write (unit : List Char) (l : Line) : List Char := lineChars unit l.level l.text

namespace Item

/-- The line of an item that is one. -/
def lines : Item → List Line
  | line depth text => [⟨depth, text⟩]
  | _ => []

/-- Items that are lines are written line by line, at a level with its margin before each. -/
lemma flatMap_write {items : List Item} (h : ∀ item ∈ items, item.lines ≠ [])
    (unit : List Char) (level : Nat) : items.flatMap (write unit level) =
      (items.flatMap lines).flatMap fun l => marginChars unit level ++ l.write unit := by
  induction items with
  | nil => rfl
  | cons item items ih =>
    obtain ⟨hitem, hitems⟩ := List.forall_mem_cons.mp h
    cases item with
    | line depth text => simp [write, lines, Line.write, lineChars, marginChars_add, ih hitems]
    | margin depth => contradiction
    | blank => contradiction

end Item

namespace Step

/-- The lines of steps that start at a level. -/
def allLines (level : Nat) (ss : List Step) : List Line := (outlineAll level ss).flatMap Item.lines

lemma allLines_block (level : Nat) (header : String) (body : List Step) :
    allLines level [block header body] = ⟨level, header.toList ++ [' ', '\x7b']⟩ ::
      (allLines (level + 1) body ++ [⟨level, ['\x7d']⟩]) := by
  simp [allLines, outlineAll, outline, Item.lines]

end Step

lemma Function.isEntry_iff (f : Function) : f.isEntry = true ↔ f.name = "main" :=
  decide_eq_true_iff

namespace Declaration

def isInclusion : Declaration → Bool
  | inclusion _ => true
  | _ => false

end Declaration

/-- The declarations that become members. -/
def Program.members (p : Program) : List Declaration := p.nodes.filter fun d => !d.isInclusion

namespace Target

lemma eq_of_importLine? {t : Target} {i : Include} {line : String}
    (h : t.importLine? i = some line) : line = "import java.util.Scanner;" := by
  cases t with
  | python => contradiction
  | java =>
    rw [importLine?, Java.importLine?] at h
    split at h
    · exact (Option.some.inj h).symm
    · contradiction

/-- The rule for a declaration: that for entry points for a function called `main`, and those
for functions and for variables. There is none for inclusions. -/
def rule (t : Target) : Declaration → List Step
  | .inclusion _ => []
  | .function f => if f.name = "main" then t.entryPoint else t.function f
  | .var v => t.variableSteps v

/-- Members are made by the rules. -/
lemma member?_eq (t : Target) (d : Declaration) :
    t.member? d = if d.isInclusion then none else some (t.rule d) := by
  cases d with
  | inclusion i => rfl
  | function f => simp [member?, f.isEntry_iff, Declaration.isInclusion, rule]
  | var v => rfl

lemma areBalanced_rule (t : Target) (d : Declaration) : Step.areBalanced 0 (t.rule d) = true := by
  by_cases hd : d.isInclusion = true
  · cases d with
    | inclusion i => rfl
    | _ => contradiction
  · apply areBalanced_member (t := t) (d := d)
    rw [member?_eq, if_neg hd]

lemma filterMap_member? (t : Target) (p : Program) :
    p.nodes.filterMap t.member? = p.members.map t.rule := by
  rw [Program.members]
  induction p.nodes with
  | nil => rfl
  | cons d ds ih =>
    by_cases hd : d.isInclusion = true
    · rw [List.filterMap_cons_none (by rw [member?_eq, if_pos hd]),
        List.filter_cons_of_neg (by simp [hd]), ih]
    · rw [List.filterMap_cons_some (by rw [member?_eq, if_neg hd]),
        List.filter_cons_of_pos (by simpa using hd), List.map_cons, ih]

/-- The text of a declaration alone on a page, from a level on. -/
def fragment (t : Target) (style : Style) (level : Nat) (d : Declaration) : String :=
  ({ Page.ofWidth style.indentWidth with level }.steps (t.rule d)).text

lemma toList_fragment (t : Target) (style : Style) (level : Nat) (d : Declaration) :
    (t.fragment style level d).toList = Step.writeAll style.unit level (t.rule d) := by
  rw [fragment, Page.steps_eq _ _ (t.areBalanced_rule d) (Nat.zero_le _)]
  simp [Page.ofWidth, Style.unit]

/-- The lines of a declaration alone on a page. -/
def lines (t : Target) (d : Declaration) : List Line := Step.allLines 0 (t.rule d)

lemma lines_ne_nil_of_mem (t : Target) (d : Declaration) :
    ∀ item ∈ Step.outlineAll 0 (t.rule d), item.lines ≠ [] := by
  cases d with
  | inclusion i => simp [rule, Step.outlineAll]
  | var v =>
    cases t <;> simp [rule, variableSteps, Java.field, Python.assignment, Step.outlineAll,
      Step.outline, Item.lines]
  | function f =>
    by_cases hf : f.name = "main" <;> cases t <;>
      simp [rule, hf, entryPoint, function, Java.entryPoint, Python.entryPoint, Java.function,
        Python.function, Step.outlineAll, Step.outline, Step.levelAfter, Item.lines]

lemma lines_ne_nil (t : Target) {d : Declaration} (h : d.isInclusion = false) :
    t.lines d ≠ [] := by
  cases d with
  | inclusion i => contradiction
  | var v => cases t <;> exact List.cons_ne_nil _ _
  | function f =>
    by_cases hf : f.name = "main" <;> cases t <;> simp only [lines, rule, hf, if_true, if_false] <;>
      exact List.cons_ne_nil _ _

/-- At a level the same lines are written, with the margin of the level before each. -/
lemma toList_fragment_eq (t : Target) (style : Style) (level : Nat) (d : Declaration) :
    (t.fragment style level d).toList =
      (t.lines d).flatMap fun l => marginChars style.unit level ++ l.write style.unit := by
  have houtline := Step.outlineAll_add level (t.rule d) (t.areBalanced_rule d) (Nat.le_refl 0)
  rw [Nat.add_zero] at houtline
  rw [toList_fragment, Step.writeAll, houtline, List.flatMap_map]
  simp only [Item.write_deeper, Nat.zero_add]
  rw [Item.flatMap_write (t.lines_ne_nil_of_mem d), lines, Step.allLines]

lemma toList_fragment_zero (t : Target) (style : Style) (d : Declaration) :
    (t.fragment style 0 d).toList = (t.lines d).flatMap (Line.write style.unit) :=
  t.toList_fragment_eq style 0 d

/-- Inside of a class one unit stands before each line of a fragment. -/
lemma toList_fragment_one (t : Target) (style : Style) (d : Declaration) :
    (t.fragment style 1 d).toList =
      (t.lines d).flatMap fun l => style.unit ++ l.write style.unit := by
  rw [toList_fragment_eq, marginChars_one]

end Target

/-- The blank lines between two members. -/
def Style.gap (style : Style) : String := String.ofList (List.replicate style.blankLines '\n')

namespace Program

/-- The lines that stand for inclusions. -/
def importText (p : Program) : Target → String
  | .java => String.join ((p.includes.filter fun i => i.library = "stdio.h").map
      fun _ => "import java.util.Scanner;\n")
  | .python => ""

/-- The fragments of the members with blank lines between them. -/
def joined (p : Program) (t : Target) (style : Style) (level : Nat) : String :=
  style.gap.intercalate (p.members.map (t.fragment style level))

/-- The members of a program with an entry point. -/
def enclosed (p : Program) (style : Style) : Target → String
  | .java => "public class " ++ style.className ++ " \x7b\n" ++ p.joined .java style 1 ++ "\x7d\n"
  | .python => p.joined .python style 0 ++ style.gap ++
      "if __name__ == \"__main__\":\n" ++ String.ofList style.unit ++ "main()\n"

/-- The members, enclosed if one of them is an entry point. -/
def bodyText (p : Program) (t : Target) (style : Style) : String :=
  if ∃ f ∈ p.functions, f.name = "main" then p.enclosed style t else p.joined t style 0

/-- The skeleton of a program, put together from fragments. -/
def composed (p : Program) (t : Target) (style : Style) : String :=
  if p.members = [] then p.importText t
  else p.importText t ++ (if p.importText t = "" then "" else style.gap) ++ p.bodyText t style

lemma toList_joined (p : Program) (t : Target) (style : Style) (level : Nat) :
    (p.joined t style level).toList = Step.writeAll style.unit level
      (Step.separate style.blankLines (p.nodes.filterMap t.member?)) := by
  rw [Step.writeAll_separate _ _ _ (t.areBalanced_of_mem_members p.nodes), t.filterMap_member?]
  simp [joined, Style.gap, String.toList_intercalate, Function.comp_def, Target.toList_fragment]

lemma isSome_entryPoint? (p : Program) :
    p.entryPoint?.isSome = true ↔ ∃ f ∈ p.functions, f.name = "main" := by
  rw [entryPoint?, List.find?_isSome]
  exact exists_congr fun f => and_congr_right fun _ => f.isEntry_iff

lemma toList_importText (p : Program) (t : Target) (style : Style) :
    (p.importText t).toList =
      Step.writeAll style.unit 0 ((p.includes.filterMap t.importLine?).map Step.line) := by
  rw [Step.writeAll_lines]
  cases t with
  | python =>
    have hnone : p.includes.filterMap Target.python.importLine? = [] := by
      rw [List.filterMap_eq_nil_iff]
      exact fun _ _ => rfl
    rw [hnone]
    rfl
  | java =>
    rw [importText]
    induction p.includes with
    | nil => rfl
    | cons i is ih =>
      by_cases hi : i.library = "stdio.h"
      · have hline : Target.java.importLine? i = some "import java.util.Scanner;" := if_pos hi
        rw [List.filterMap_cons_some hline, List.filter_cons_of_pos (by simpa using hi)]
        simpa [lineChars, marginChars] using ih
      · have hline : Target.java.importLine? i = none := if_neg hi
        rw [List.filterMap_cons_none hline, List.filter_cons_of_neg (by simpa using hi)]
        exact ih

lemma importText_eq_empty_iff (p : Program) (t : Target) :
    p.importText t = "" ↔ p.includes.filterMap t.importLine? = [] := by
  rw [← String.toList_inj, toList_importText p t {}, Step.writeAll_lines]
  cases p.includes.filterMap t.importLine? with
  | nil => simp
  | cons line lines => simp [lineChars]

lemma toList_enclosed (p : Program) (t : Target) (style : Style) :
    (p.enclosed style t).toList = Step.writeAll style.unit 0 (t.enclose style
      (Step.separate style.blankLines (p.nodes.filterMap t.member?))) := by
  have hbalanced := Step.areBalanced_separate style.blankLines
    (t.areBalanced_of_mem_members p.nodes)
  unfold enclosed
  cases t with
  | java =>
    simp only [Target.enclose, Java.enclose, Step.writeAll_block, Step.writeAll_nil, lineChars,
      String.toList_append, toList_joined, List.append_assoc, List.append_nil]
    rfl
  | python =>
    rw [Target.enclose, Python.enclose, Step.writeAll_append _ hbalanced (Nat.zero_le _),
      Nat.sub_zero, Step.writeAll_blanks]
    simp only [Style.gap, Step.writeAll_suite, Step.writeAll_line, Step.writeAll_nil, lineChars,
      Nat.zero_add, marginChars_one, String.toList_append, String.toList_ofList, toList_joined,
      List.append_assoc, List.append_nil]
    rfl

lemma toList_bodyText (p : Program) (t : Target) (style : Style) :
    (p.bodyText t style).toList = Step.writeAll style.unit 0 (t.body style p) := by
  simp only [bodyText, Target.body, isSome_entryPoint?]
  split
  · exact toList_enclosed p t style
  · exact toList_joined p t style 0

/-- The text that a page gets for a skeleton is made of fragments. -/
theorem render_eq_composed (p : Program) (t : Target) (style : Style) :
    p.render t style = p.composed t style := by
  have hmembers : p.nodes.filterMap t.member? = [] ↔ p.members = [] := by
    rw [t.filterMap_member?, List.map_eq_nil_iff]
  have himports := p.importText_eq_empty_iff t
  rw [← String.toList_inj, toList_render, composed]
  simp only [Target.skeleton, hmembers, ← himports]
  split_ifs with hnone hempty
  · rw [toList_importText]
  · rw [hempty, String.empty_append, String.empty_append, toList_bodyText]
  · rw [Step.writeAll_append _ (Step.areBalanced_lines _) (Nat.zero_le _), Nat.sub_zero,
      Step.writeAll_blanks, String.toList_append, String.toList_append, toList_bodyText,
      toList_importText p t style, List.append_assoc, Style.gap, String.toList_ofList]

end Program

/-- The line behind the members of a program with an entry point. -/
def Target.closingLine : Target → Line
  | java => ⟨0, ['\x7d']⟩
  | python => ⟨1, "main()".toList⟩

lemma suffix_flatMap_of_getLast? {α : Type} {xs : List α} {x : α} (f : α → List Char)
    (h : xs.getLast? = some x) : f x <:+ xs.flatMap f := by
  obtain ⟨before, rfl⟩ := List.getLast?_eq_some_iff.mp h
  rw [List.flatMap_append, List.flatMap_singleton]
  exact List.suffix_append _ _

lemma suffix_intercalate_of_getLast? {xs : List (List Char)} {x : List Char} (sep : List Char)
    (h : xs.getLast? = some x) : x <:+ sep.intercalate xs := by
  induction xs with
  | nil => contradiction
  | cons y ys ih =>
    cases ys with
    | nil =>
      obtain rfl : y = x := by simpa using h
      simp
    | cons z zs =>
      rw [List.getLast?_cons_cons] at h
      rw [List.intercalate_cons_cons]
      exact (ih h).trans (List.suffix_append _ _)

namespace Program

/-- The line that a skeleton ends with. -/
def lastLine? (p : Program) (t : Target) : Option Line :=
  match p.members.getLast? with
  | none => (p.includes.filterMap t.importLine?).getLast?.map fun s => ⟨0, s.toList⟩
  | some d =>
    if ∃ f ∈ p.functions, f.name = "main" then some t.closingLine else (t.lines d).getLast?

lemma closingLine_suffix_enclosed (p : Program) (t : Target) (style : Style) :
    t.closingLine.write style.unit <:+ (p.enclosed style t).toList := by
  cases t with
  | java =>
    dsimp only [enclosed]
    rw [String.toList_append]
    exact List.suffix_append _ _
  | python =>
    have hline : Target.python.closingLine.write style.unit =
        (String.ofList style.unit ++ "main()\n").toList := by
      simp [Target.closingLine, Line.write, lineChars, marginChars_one]
    dsimp only [enclosed]
    rw [String.append_assoc, String.toList_append, hline]
    exact List.suffix_append _ _

lemma lastLine_suffix_joined {p : Program} {t : Target} {d : Declaration} {l : Line}
    (style : Style) (hd : p.members.getLast? = some d) (hl : (t.lines d).getLast? = some l) :
    l.write style.unit <:+ (p.joined t style 0).toList := by
  have hline : l.write style.unit <:+ (t.fragment style 0 d).toList := by
    rw [Target.toList_fragment_zero]
    exact suffix_flatMap_of_getLast? _ hl
  have hfragment : (t.fragment style 0 d).toList <:+ (p.joined t style 0).toList := by
    rw [joined, String.toList_intercalate]
    apply suffix_intercalate_of_getLast?
    rw [List.getLast?_map, List.getLast?_map, hd]
    rfl
  exact hline.trans hfragment

lemma lastLine_suffix_importText {p : Program} {t : Target} {s : String} (style : Style)
    (h : (p.includes.filterMap t.importLine?).getLast? = some s) :
    Line.write style.unit ⟨0, s.toList⟩ <:+ (p.importText t).toList := by
  rw [toList_importText p t style, Step.writeAll_lines]
  exact suffix_flatMap_of_getLast? (fun s => lineChars style.unit 0 s.toList) h

lemma bodyText_suffix_render {p : Program} (t : Target) (style : Style) (h : p.members ≠ []) :
    (p.bodyText t style).toList <:+ (p.render t style).toList := by
  rw [render_eq_composed, composed, if_neg h, String.toList_append]
  exact List.suffix_append _ _

/-- A skeleton ends with its last line. -/
theorem lastLine_suffix_render {p : Program} {t : Target} {l : Line} (style : Style)
    (h : p.lastLine? t = some l) : l.write style.unit <:+ (p.render t style).toList := by
  rw [lastLine?] at h
  cases hd : p.members.getLast? with
  | none =>
    rw [hd] at h
    obtain ⟨s, hs, rfl⟩ := Option.map_eq_some_iff.mp h
    rw [render_eq_composed, composed, if_pos (List.getLast?_eq_none_iff.mp hd)]
    exact lastLine_suffix_importText style hs
  | some d =>
    simp only [hd] at h
    have hne : p.members ≠ [] := List.ne_nil_of_mem (List.mem_of_getLast? hd)
    refine List.IsSuffix.trans ?_ (bodyText_suffix_render t style hne)
    rw [bodyText]
    split at h
    · rename_i hentry
      cases h
      rw [if_pos hentry]
      exact closingLine_suffix_enclosed p t style
    · rename_i hentry
      rw [if_neg hentry]
      exact lastLine_suffix_joined style hd h

lemma lastLine?_eq_none_iff (p : Program) (t : Target) :
    p.lastLine? t = none ↔ p.members = [] ∧ p.importText t = "" := by
  rw [lastLine?, importText_eq_empty_iff]
  cases hd : p.members.getLast? with
  | none => simp [List.getLast?_eq_none_iff.mp hd]
  | some d =>
    have hne : p.members ≠ [] := List.ne_nil_of_mem (List.mem_of_getLast? hd)
    have hmember : d.isInclusion = false := by
      simpa using (List.mem_filter.mp (List.mem_of_getLast? hd)).2
    have hlines : (t.lines d).getLast? ≠ none := by
      rw [Ne, List.getLast?_eq_none_iff]
      exact t.lines_ne_nil hmember
    simp only [hne, false_and, iff_false]
    split
    · simp
    · exact hlines

/-- Only a program without members and imports has an empty skeleton. -/
theorem render_eq_empty_iff (p : Program) (t : Target) (style : Style) :
    p.render t style = "" ↔ p.members = [] ∧ p.importText t = "" := by
  rw [← lastLine?_eq_none_iff]
  constructor
  · intro hempty
    rw [Option.eq_none_iff_forall_ne_some]
    intro l hl
    have hsuffix := lastLine_suffix_render style hl
    rw [hempty] at hsuffix
    have hwrite := List.suffix_nil.mp hsuffix
    simp [Line.write, lineChars] at hwrite
  · intro hnone
    obtain ⟨hmembers, himports⟩ := (lastLine?_eq_none_iff p t).mp hnone
    rw [render_eq_composed, composed, if_pos hmembers, himports]

/-- A skeleton is put together from the fragments of its members, which do not depend on each
other, and each line of a fragment is one unit further in inside of a class. -/
theorem render_of_fragments (p : Program) (t : Target) (style : Style) :
    p.render t style = p.composed t style ∧
    (p.render t style = "" ↔ p.members = [] ∧ p.importText t = "") ∧
    ∀ d : Declaration,
      (t.fragment style 0 d).toList = (t.lines d).flatMap (Line.write style.unit) ∧
      (t.fragment style 1 d).toList =
        (t.lines d).flatMap fun l => style.unit ++ l.write style.unit :=
  ⟨p.render_eq_composed t style, p.render_eq_empty_iff t style,
    fun d => ⟨t.toList_fragment_zero style d, t.toList_fragment_one style d⟩⟩

end Program

end Scaffold
