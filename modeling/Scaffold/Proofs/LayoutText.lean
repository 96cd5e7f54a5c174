import Mathlib.Tactic.Lemma
import Scaffold.Skeleton.Render

/-!
# The text of a layout

A page writes its steps one after the other and keeps the level as it goes. The outline
of steps lists what they put on a page, each item with its depth, and `Step.writeAll` gives
its text. Page and outline agree for steps that close every level they open, inside of each
block and suite and outside. All skeletons are made of such steps, so their text is known
without running a page.
-/
namespace Scaffold

/-- The indentation of a level. -/
def marginChars (unit : List Char) (level : Nat) : List Char := (List.replicate level unit).flatten

lemma marginChars_one (unit : List Char) : marginChars unit 1 = unit := by simp [marginChars]

lemma marginChars_add (unit : List Char) (level depth : Nat) :
    marginChars unit (level + depth) = marginChars unit level ++ marginChars unit depth := by
  rw [marginChars, ← List.replicate_append_replicate, List.flatten_append, marginChars, marginChars]

lemma mem_of_mem_marginChars {unit : List Char} {level : Nat} {c : Char}
    (h : c ∈ marginChars unit level) : c ∈ unit := by
  obtain ⟨copy, hcopy, hc⟩ := List.mem_flatten.mp h
  rwa [List.eq_of_mem_replicate hcopy] at hc

/-- A line at a level, with its end. -/
def lineChars (unit : List Char) (level : Nat) (text : List Char) : List Char :=
  marginChars unit level ++ text ++ ['\n']

/-- What a layout puts on a page: lines and margins at their depths, and blank lines. -/
inductive Item
  | line (depth : Nat) (text : List Char)
  | margin (depth : Nat)
  | blank
  deriving DecidableEq, Repr

namespace Item

/-- The text of an item on a page that starts at a level. -/
def write (unit : List Char) (level : Nat) : Item → List Char
  | line depth text => lineChars unit (level + depth) text
  | margin depth => marginChars unit (level + depth)
  | blank => ['\n']

/-- The item some levels further in. -/
def deeper (levels : Nat) : Item → Item
  | line depth text => line (levels + depth) text
  | margin depth => margin (levels + depth)
  | blank => blank

lemma write_deeper (unit : List Char) (levels level : Nat) (item : Item) :
    (item.deeper levels).write unit level = item.write unit (level + levels) := by
  cases item <;> simp only [deeper, write, Nat.add_assoc]

end Item

namespace Step

/-- The level behind a step; blocks and suites return to their own. -/
def levelAfter (level : Nat) : Step → Nat
  | indent => level + 1
  | dedent => level - 1
  | _ => level

mutual

/-- Steps that close no more levels than were opened, and in their bodies all that they open. -/
def isBalanced (opened : Nat) : Step → Bool
  | dedent => 0 < opened
  | block _ body => areBalanced 0 body
  | suite _ body => areBalanced 0 body
  | _ => true

/-- Steps that close all levels: those opened before and those they open themselves. -/
def areBalanced (opened : Nat) : List Step → Bool
  | [] => opened = 0
  | s :: rest => isBalanced opened s && areBalanced (s.levelAfter opened) rest

end

mutual

/-- The items of a step at a depth; those of a body are one deeper than the step. -/
def outline (depth : Nat) : Step → List Item
  | line s => [.line depth s.toList]
  | blanks count => List.replicate count .blank
  | margin => [.margin depth]
  | indent => []
  | dedent => []
  | block header body => .line depth (header.toList ++ [' ', '\x7b']) ::
      (outlineAll (depth + 1) body ++ [.line depth ['\x7d']])
  | suite header body => .line depth (header.toList ++ [':']) :: outlineAll (depth + 1) body

/-- The items of steps that start at a depth. -/
def outlineAll (depth : Nat) : List Step → List Item
  | [] => []
  | s :: rest => outline depth s ++ outlineAll (s.levelAfter depth) rest

end

/-- The text of steps that start at a level. -/
def writeAll (unit : List Char) (level : Nat) (ss : List Step) : List Char :=
  (outlineAll level ss).flatMap (Item.write unit 0)

section Texts

variable (unit : List Char) (level : Nat)

@[simp] lemma writeAll_nil : writeAll unit level [] = [] := rfl

lemma writeAll_cons (s : Step) (rest : List Step) : writeAll unit level (s :: rest) =
    (s.outline level).flatMap (Item.write unit 0) ++ writeAll unit (s.levelAfter level) rest := by
  rw [writeAll, outlineAll, List.flatMap_append, writeAll]

@[simp] lemma writeAll_line (s : String) (rest : List Step) :
    writeAll unit level (line s :: rest) =
      lineChars unit level s.toList ++ writeAll unit level rest := by
  simp [writeAll_cons, outline, Item.write, levelAfter]

@[simp] lemma writeAll_blanks (count : Nat) (rest : List Step) :
    writeAll unit level (blanks count :: rest) =
      List.replicate count '\n' ++ writeAll unit level rest := by
  simp [writeAll_cons, outline, Item.write, levelAfter, List.flatMap_replicate]

@[simp] lemma writeAll_block (header : String) (body rest : List Step) :
    writeAll unit level (block header body :: rest) =
      lineChars unit level (header.toList ++ [' ', '\x7b']) ++ (writeAll unit (level + 1) body ++
        (lineChars unit level ['\x7d'] ++ writeAll unit level rest)) := by
  simp [writeAll, outlineAll, outline, Item.write, levelAfter]

@[simp] lemma writeAll_suite (header : String) (body rest : List Step) :
    writeAll unit level (suite header body :: rest) =
      lineChars unit level (header.toList ++ [':']) ++
        (writeAll unit (level + 1) body ++ writeAll unit level rest) := by
  simp [writeAll, outlineAll, outline, Item.write, levelAfter]

lemma writeAll_lines (lines : List String) : writeAll unit level (lines.map line) =
    lines.flatMap fun s => lineChars unit level s.toList := by
  induction lines with
  | nil => rfl
  | cons s lines ih => rw [List.map_cons, writeAll_line, ih, List.flatMap_cons]

end Texts

/-- A balanced step moves all levels alike. -/
lemma levelAfter_sub {s : Step} {opened level : Nat} (h : s.isBalanced opened = true)
    (hlevel : opened ≤ level) : s.levelAfter opened ≤ s.levelAfter level ∧
      s.levelAfter level - s.levelAfter opened = level - opened := by
  cases s with
  | dedent =>
    have hopened : 0 < opened := by simpa [isBalanced] using h
    simp only [levelAfter]
    omega
  | indent =>
    simp only [levelAfter]
    omega
  | _ => exact ⟨hlevel, rfl⟩

end Step

namespace Page

lemma marginText_eq (p : Page) :
    p.marginText = String.ofList (marginChars p.unit.toList p.level) := by
  rw [← String.toList_inj]
  simp [marginText, marginChars, List.flatMap]

lemma line_eq (p : Page) (s : String) :
    p.line s = { p with
      text := p.text ++ String.ofList (lineChars p.unit.toList p.level s.toList) } := by
  have htext : p.text ++ p.marginText ++ s ++ "\n" =
      p.text ++ String.ofList (lineChars p.unit.toList p.level s.toList) := by
    rw [← String.toList_inj]
    simp [lineChars, marginText_eq]
  rw [line, htext]

mutual

/-- A balanced step writes its items and leaves the page at the level behind it. -/
theorem step_eq (p : Page) (s : Step) {opened : Nat} (h : s.isBalanced opened = true) :
    p.step s = { p with
      text := p.text ++ String.ofList ((s.outline p.level).flatMap (Item.write p.unit.toList 0))
      level := s.levelAfter p.level } := by
  cases s with
  | line s => simp [step, line_eq, Step.outline, Item.write, Step.levelAfter]
  | blanks count =>
    simp [step, Page.blanks, Step.outline, Item.write, Step.levelAfter, List.flatMap_replicate]
  | margin => simp [step, Page.margin, marginText_eq, Step.outline, Item.write, Step.levelAfter]
  | indent => simp [step, Page.indent, Step.outline, Step.levelAfter]
  | dedent => simp [step, Page.dedent, Step.outline, Step.levelAfter]
  | block header body =>
    rw [Step.isBalanced] at h
    rw [step, line_eq, steps_eq _ body h (Nat.zero_le _), line_eq]
    simp [Page.indent, Page.dedent, Step.writeAll, Step.outline, Item.write, Step.levelAfter,
      String.append_assoc]
  | suite header body =>
    rw [Step.isBalanced] at h
    rw [step, line_eq, steps_eq _ body h (Nat.zero_le _)]
    simp [Page.indent, Page.dedent, Step.writeAll, Step.outline, Item.write, Step.levelAfter,
      String.append_assoc]

/-- Balanced steps write their text and leave the page at the level they closed last. -/
theorem steps_eq (p : Page) (ss : List Step) {opened : Nat}
    (h : Step.areBalanced opened ss = true) (hlevel : opened ≤ p.level) :
    p.steps ss = { p with
      text := p.text ++ String.ofList (Step.writeAll p.unit.toList p.level ss)
      level := p.level - opened } := by
  cases ss with
  | nil =>
    have hopened : opened = 0 := by simpa [Step.areBalanced] using h
    simp [hopened]
  | cons s rest =>
    rw [Step.areBalanced, Bool.and_eq_true] at h
    obtain ⟨hle, hsub⟩ := Step.levelAfter_sub h.1 hlevel
    rw [steps_cons, step_eq p s h.1, steps_eq _ rest h.2 hle]
    simp [Step.writeAll_cons, String.append_assoc, hsub]

end

end Page

namespace Step

lemma areBalanced_append {opened : Nat} {ss more : List Step}
    (h : areBalanced opened ss = true) (hmore : areBalanced 0 more = true) :
    areBalanced opened (ss ++ more) = true := by
  induction ss generalizing opened with
  | nil =>
    have hopened : opened = 0 := by simpa [areBalanced] using h
    rw [hopened, List.nil_append, hmore]
  | cons s rest ih =>
    rw [areBalanced, Bool.and_eq_true] at h
    rw [List.cons_append, areBalanced, h.1, ih h.2, Bool.and_self]

lemma outlineAll_append {opened level : Nat} {ss : List Step}
    (h : areBalanced opened ss = true) (hlevel : opened ≤ level) (more : List Step) :
    outlineAll level (ss ++ more) = outlineAll level ss ++ outlineAll (level - opened) more := by
  induction ss generalizing opened level with
  | nil =>
    have hopened : opened = 0 := by simpa [areBalanced] using h
    rw [hopened, List.nil_append, Nat.sub_zero, outlineAll, List.nil_append]
  | cons s rest ih =>
    rw [areBalanced, Bool.and_eq_true] at h
    obtain ⟨hle, hsub⟩ := levelAfter_sub h.1 hlevel
    rw [List.cons_append, outlineAll, outlineAll, ih h.2 hle, hsub, List.append_assoc]

lemma writeAll_append (unit : List Char) {opened level : Nat} {ss : List Step}
    (h : areBalanced opened ss = true) (hlevel : opened ≤ level) (more : List Step) :
    writeAll unit level (ss ++ more) =
      writeAll unit level ss ++ writeAll unit (level - opened) more := by
  rw [writeAll, outlineAll_append h hlevel, List.flatMap_append, writeAll, writeAll]

@[simp] lemma areBalanced_blanks (opened count : Nat) (rest : List Step) :
    areBalanced opened (blanks count :: rest) = areBalanced opened rest := by
  simp [areBalanced, isBalanced, levelAfter]

lemma areBalanced_lines (lines : List String) : areBalanced 0 (lines.map line) = true := by
  induction lines with
  | nil => rfl
  | cons s lines ih => simpa [areBalanced, isBalanced, levelAfter] using ih

lemma areBalanced_separate (gap : Nat) {groups : List (List Step)}
    (h : ∀ group ∈ groups, areBalanced 0 group = true) :
    areBalanced 0 (separate gap groups) = true := by
  fun_induction separate gap groups with
  | case1 => rfl
  | case2 group => exact h group (by simp)
  | case3 group groups hne ih =>
    obtain ⟨hgroup, hgroups⟩ := List.forall_mem_cons.mp h
    refine areBalanced_append hgroup ?_
    rw [areBalanced_blanks, ih hgroups]

/-- Whatever is made of each item, groups with blank lines between them give what the groups
give with what the blank lines give between them. -/
lemma flatMap_outlineAll_separate {α : Type} (f : Item → List α) (level gap : Nat)
    {groups : List (List Step)} (h : ∀ group ∈ groups, areBalanced 0 group = true) :
    (outlineAll level (separate gap groups)).flatMap f =
      (List.replicate gap (f .blank)).flatten.intercalate
        (groups.map fun group => (outlineAll level group).flatMap f) := by
  fun_induction separate gap groups with
  | case1 => rfl
  | case2 group => simp
  | case3 group groups hne ih =>
    obtain ⟨hgroup, hgroups⟩ := List.forall_mem_cons.mp h
    have hmap : groups.map (fun group => (outlineAll level group).flatMap f) ≠ [] := by
      simpa using hne
    have hgap : outlineAll level (blanks gap :: separate gap groups) =
        List.replicate gap .blank ++ outlineAll level (separate gap groups) := rfl
    rw [outlineAll_append hgroup (Nat.zero_le _), Nat.sub_zero, hgap, List.flatMap_append,
      List.flatMap_append, List.flatMap_replicate, ih hgroups, List.map_cons,
      List.intercalate_cons_of_ne_nil hmap, List.append_assoc]

lemma writeAll_separate (unit : List Char) (level gap : Nat) {groups : List (List Step)}
    (h : ∀ group ∈ groups, areBalanced 0 group = true) :
    writeAll unit level (separate gap groups) =
      (List.replicate gap '\n').intercalate (groups.map (writeAll unit level)) := by
  have hgap : (List.replicate gap (Item.write unit 0 .blank)).flatten =
      List.replicate gap '\n' := by
    simp [Item.write]
  rw [writeAll, flatMap_outlineAll_separate _ level gap h, hgap]
  rfl

mutual

/-- A balanced step has the same items at all depths, only further in. -/
theorem outline_add (levels depth : Nat) {opened : Nat} (s : Step)
    (h : s.isBalanced opened = true) :
    s.outline (levels + depth) = (s.outline depth).map (Item.deeper levels) := by
  cases s with
  | line s => rfl
  | blanks count => simp [outline, Item.deeper]
  | margin => rfl
  | indent => rfl
  | dedent => rfl
  | block header body =>
    rw [isBalanced] at h
    have hbody := outlineAll_add levels body h (Nat.zero_le (depth + 1))
    rw [← Nat.add_assoc] at hbody
    simp [outline, Item.deeper, hbody]
  | suite header body =>
    rw [isBalanced] at h
    have hbody := outlineAll_add levels body h (Nat.zero_le (depth + 1))
    rw [← Nat.add_assoc] at hbody
    simp [outline, Item.deeper, hbody]

theorem outlineAll_add (levels : Nat) {opened depth : Nat} (ss : List Step)
    (h : areBalanced opened ss = true) (hdepth : opened ≤ depth) :
    outlineAll (levels + depth) ss = (outlineAll depth ss).map (Item.deeper levels) := by
  cases ss with
  | nil => rfl
  | cons s rest =>
    rw [areBalanced, Bool.and_eq_true] at h
    obtain ⟨hle, hsub⟩ := levelAfter_sub h.1 hdepth
    obtain ⟨hle', hsub'⟩ := levelAfter_sub h.1 (show opened ≤ levels + depth by omega)
    have hafter : s.levelAfter (levels + depth) = levels + s.levelAfter depth := by omega
    rw [outlineAll, outlineAll, hafter, outline_add levels depth s h.1,
      outlineAll_add levels rest h.2 hle, List.map_append]

end

end Step

namespace Target

lemma areBalanced_member {t : Target} {d : Declaration} {steps : List Step}
    (h : t.member? d = some steps) : Step.areBalanced 0 steps = true := by
  cases d with
  | inclusion => cases h
  | function f =>
    rw [member?, Option.some.injEq] at h
    subst h
    cases t <;> split <;> rfl
  | var v =>
    rw [member?, Option.some.injEq] at h
    subst h
    cases t <;> rfl

lemma areBalanced_of_mem_members (t : Target) (ds : List Declaration) :
    ∀ steps ∈ ds.filterMap t.member?, Step.areBalanced 0 steps = true := by
  intro steps hsteps
  obtain ⟨d, -, hd⟩ := List.mem_filterMap.mp hsteps
  exact areBalanced_member hd

lemma areBalanced_enclose (t : Target) (style : Style) {members : List Step}
    (h : Step.areBalanced 0 members = true) :
    Step.areBalanced 0 (t.enclose style members) = true := by
  cases t with
  | java =>
    simpa [enclose, Java.enclose, Step.areBalanced, Step.isBalanced, Step.levelAfter] using h
  | python => exact Step.areBalanced_append h rfl

lemma areBalanced_body (t : Target) (style : Style) (p : Program) :
    Step.areBalanced 0 (t.body style p) = true := by
  have hmembers := Step.areBalanced_separate style.blankLines (areBalanced_of_mem_members t p.nodes)
  simp only [body]
  split
  · exact areBalanced_enclose t style hmembers
  · exact hmembers

/-- Skeletons close all levels they open. -/
theorem areBalanced_skeleton (t : Target) (style : Style) (p : Program) :
    Step.areBalanced 0 (t.skeleton style p) = true := by
  have hlines := Step.areBalanced_lines (p.includes.filterMap t.importLine?)
  have hbody := areBalanced_body t style p
  simp only [skeleton]
  split
  · exact hlines
  split
  · exact hbody
  · exact Step.areBalanced_append hlines (by rw [Step.areBalanced_blanks, hbody])

end Target

/-- The spaces of one level in a style. -/
def Style.unit (style : Style) : List Char :=
  List.replicate (min style.indentWidth Page.maxIndent) ' '

lemma Style.eq_space_of_mem_unit {style : Style} {c : Char} (h : c ∈ style.unit) : c = ' ' :=
  List.eq_of_mem_replicate h

theorem Program.toList_render (p : Program) (t : Target) (style : Style) :
    (p.render t style).toList = Step.writeAll style.unit 0 (t.skeleton style p) := by
  rw [render, Page.steps_eq _ _ (t.areBalanced_skeleton style p) (Nat.zero_le _)]
  simp [Page.ofWidth, Style.unit]

end Scaffold
