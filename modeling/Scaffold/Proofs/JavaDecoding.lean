import Scaffold.Proofs.JavaMembers

/-!
# Programs told by their Java skeletons

The text of a skeleton is a list of import lines and a list of members, maybe with a class
around them. Neither the margins nor the blank lines of the style are needed to tell where
each part ends: imports begin like no member, members like no class and no class end.
-/
namespace Scaffold

namespace Java

/-- The import lines of a program. -/
def imports (p : Program) : List String := p.includes.filterMap importLine?

lemma length_imports (p : Program) :
    (imports p).length = p.includes.countP fun i => i.library = "stdio.h" := by
  rw [imports, List.length_filterMap_eq_countP]
  refine List.countP_congr fun i _ => ?_
  by_cases hi : i.library = "stdio.h" <;> simp [importLine?, hi]

lemma eq_of_mem_imports {p : Program} {line : String} (h : line ∈ imports p) :
    line = "import java.util.Scanner;" := by
  obtain ⟨i, -, hi⟩ := List.mem_filterMap.mp h
  exact Target.eq_of_importLine? (t := .java) hi

lemma separable_imports (unit : List Char) :
    Separable (fun line : String => lineChars unit 0 line.toList) []
      (fun line => line = "import java.util.Scanner;") (fun r => r.head? ≠ some 'i') id := by
  constructor
  case item_inj =>
    rintro x y r s rfl rfl - - h
    exact ⟨rfl, List.append_cancel_left h⟩
  case not_isTail_item =>
    rintro x r rfl h
    exact h rfl
  case not_isTail_sep =>
    rintro x r rfl h
    exact h rfl

section Programs

variable {style : Style} {p q : Program}

lemma of_mem_members (h : ∀ d ∈ p.nodes, d.isLegible = true) :
    ∀ d ∈ p.members, d.isInclusion = false ∧ d.isLegible = true := by
  intro d hd
  obtain ⟨hmem, hinclusion⟩ := List.mem_filter.mp hd
  exact ⟨by simpa using hinclusion, h d hmem⟩

/-- The text of the members with blank lines between them. -/
def membersChars (style : Style) (level : Nat) (p : Program) : List Char :=
  (List.replicate style.blankLines '\n').intercalate (p.members.map (memberChars style.unit level))

lemma toList_joined_eq (style : Style) (level : Nat) (p : Program) :
    (p.joined .java style level).toList = membersChars style level p := by
  rw [Program.joined, membersChars, String.toList_intercalate, Style.gap, String.toList_ofList,
    List.map_map]
  exact congrArg _ (List.map_congr_left fun d _ => Target.java.toList_fragment style level d)

/-- The text of the members, in a class if there is an entry point. -/
def classChars (style : Style) (p : Program) : List Char :=
  if p.entryPoint?.isSome then
    "public class ".toList ++ (style.className.toList ++ ([' ', '\x7b', '\n'] ++
      (membersChars style 1 p ++ ['\x7d', '\n'])))
  else membersChars style 0 p

lemma toList_bodyText_eq (style : Style) (p : Program) :
    (p.bodyText .java style).toList = classChars style p := by
  simp only [Program.bodyText, classChars, p.isSome_entryPoint?]
  split
  · dsimp only [Program.enclosed]
    simp only [String.toList_append, toList_joined_eq, List.append_assoc]
    rfl
  · exact toList_joined_eq style 0 p

/-- What follows the imports. -/
def afterImports (style : Style) (p : Program) : List Char :=
  if p.members = [] then []
  else List.replicate (if imports p = [] then 0 else style.blankLines) '\n' ++ classChars style p

lemma toList_render_eq (style : Style) (p : Program) : (p.render .java style).toList =
    (imports p).flatMap (fun line => [] ++ lineChars style.unit 0 line.toList) ++
      afterImports style p := by
  have himports : p.importText .java = "" ↔ imports p = [] := p.importText_eq_empty_iff .java
  have htext : (p.importText .java).toList =
      (imports p).flatMap fun line => lineChars style.unit 0 line.toList := by
    rw [p.toList_importText .java style, Step.writeAll_lines]
    rfl
  simp only [Program.render_eq_composed, Program.composed, afterImports, himports,
    List.nil_append, ← htext]
  split_ifs with hnone hline
  · rw [List.append_nil]
  · rw [String.append_empty, String.toList_append, toList_bodyText_eq]
    rfl
  · rw [String.append_assoc, String.toList_append, String.toList_append, toList_bodyText_eq,
      Style.gap, String.toList_ofList]

/-- The members begin with the first of them. -/
lemma exists_membersChars_eq (style : Style) (level : Nat)
    (hp : ∀ d ∈ p.nodes, d.isLegible = true) (hne : p.members ≠ []) :
    ∃ d rest, d.isInclusion = false ∧
      membersChars style level p = memberChars style.unit level d ++ rest := by
  have hmem := of_mem_members hp
  rw [membersChars]
  cases hmembers : p.members with
  | nil => contradiction
  | cons d ds =>
    rw [hmembers] at hmem
    exact ⟨d, _, (hmem d (by simp)).1, Separable.intercalate_map_cons d ds⟩

lemma exists_head_classChars (gap : Nat) (hp : ∀ d ∈ p.nodes, d.isLegible = true)
    (hne : p.members ≠ []) : ∃ c ∈ ['\n', ' ', 's', 'p'],
      (List.replicate gap '\n' ++ classChars style p).head? = some c := by
  rw [classChars]
  split
  · cases gap with
    | zero => exact ⟨'p', by simp, rfl⟩
    | succ gap => exact ⟨'\n', by simp, rfl⟩
  · obtain ⟨d, rest, hd, htext⟩ := exists_membersChars_eq style 0 hp hne
    rw [htext]
    exact exists_head_memberChars style 0 gap hd rest

lemma head?_afterImports_ne (hp : ∀ d ∈ p.nodes, d.isLegible = true) :
    (afterImports style p).head? ≠ some 'i' := by
  rw [afterImports]
  split_ifs with hne
  · simp
  all_goals
    obtain ⟨c, hc, hhead⟩ := exists_head_classChars _ hp hne
    rw [hhead]
    rintro ⟨⟩
    exact absurd hc (by decide)

/-- Members without a class around them are no class. -/
lemma membersChars_ne_class (hp : ∀ d ∈ p.nodes, d.isLegible = true) (hne : p.members ≠ [])
    (r : List Char) : membersChars style 0 p ≠ "public class ".toList ++ r := by
  intro h
  obtain ⟨d, rest, hd, htext⟩ := exists_membersChars_eq style 0 hp hne
  obtain ⟨head, hhead, more, hmore⟩ := exists_memberChars_append style.unit 0 hd rest
  rw [htext, hmore] at h
  simp only [List.mem_cons, List.not_mem_nil, or_false] at hhead
  obtain rfl | rfl := hhead
  · have hstatic : some 's' = some 'p' := congrArg List.head? h
    exact absurd hstatic (by decide)
  · have hstatic : some 's' = some 'c' := congrArg (fun cs => (List.drop 7 cs).head?) h
    exact absurd hstatic (by decide)

lemma map_shown_of_membersChars (level : Nat) (hp : ∀ d ∈ p.nodes, d.isLegible = true)
    (hq : ∀ d ∈ q.nodes, d.isLegible = true) {r : List Char} (hr : ∀ c ∈ r.head?, c = '\x7d')
    (h : membersChars style level p ++ r = membersChars style level q ++ r) :
    p.members.map shown = q.members.map shown :=
  ((separable_members style level style.blankLines).intercalate_inj (of_mem_members hp)
    (of_mem_members hq) hr hr h).1

lemma map_shown_of_classChars (hp : ∀ d ∈ p.nodes, d.isLegible = true)
    (hq : ∀ d ∈ q.nodes, d.isLegible = true) (hpne : p.members ≠ []) (hqne : q.members ≠ [])
    (h : classChars style p = classChars style q) :
    p.members.map shown = q.members.map shown := by
  simp only [classChars] at h
  split_ifs at h
  · have hmembers := List.append_cancel_left (List.append_cancel_left (List.append_cancel_left h))
    exact map_shown_of_membersChars 1 hp hq (by simp) hmembers
  · exact absurd h.symm (membersChars_ne_class hq hqne _)
  · exact absurd h (membersChars_ne_class hp hpne _)
  · exact map_shown_of_membersChars 0 hp hq (r := []) (by simp) (by rw [h])

lemma map_shown_of_afterImports (hp : ∀ d ∈ p.nodes, d.isLegible = true)
    (hq : ∀ d ∈ q.nodes, d.isLegible = true) (himports : imports p = imports q)
    (h : afterImports style p = afterImports style q) :
    p.members.map shown = q.members.map shown := by
  simp only [afterImports, himports] at h
  by_cases hpne : p.members = [] <;> by_cases hqne : q.members = []
  · rw [hpne, hqne]
  · obtain ⟨c, -, hhead⟩ := exists_head_classChars _ hq hqne
    rw [if_pos hpne, if_neg hqne] at h
    rw [← h] at hhead
    contradiction
  · obtain ⟨c, -, hhead⟩ := exists_head_classChars _ hp hpne
    rw [if_pos hqne, if_neg hpne] at h
    rw [h] at hhead
    contradiction
  · rw [if_neg hpne, if_neg hqne] at h
    exact map_shown_of_classChars hp hq hpne hqne (List.append_cancel_left h)

/-- Programs with the same skeleton declare the same, as far as skeletons show it. -/
theorem map_shown_of_render_eq (hp : ∀ d ∈ p.nodes, d.isLegible = true)
    (hq : ∀ d ∈ q.nodes, d.isLegible = true)
    (h : p.render .java style = q.render .java style) :
    (p.includes.countP fun i => i.library = "stdio.h") =
      (q.includes.countP fun i => i.library = "stdio.h") ∧
    p.members.map shown = q.members.map shown := by
  have htext := congrArg String.toList h
  rw [toList_render_eq, toList_render_eq] at htext
  obtain ⟨himports, hrest⟩ := (separable_imports style.unit).flatMap_inj
    (fun _ => eq_of_mem_imports) (fun _ => eq_of_mem_imports) (head?_afterImports_ne hp)
    (head?_afterImports_ne hq) htext
  rw [List.map_id, List.map_id] at himports
  exact ⟨by rw [← length_imports, ← length_imports, himports],
    map_shown_of_afterImports hp hq himports hrest⟩

end Programs

/-- A style without blanks, a class name that breaks its line and a value that looks like another
member. The two programs differ in all that skeletons do not show. -/
theorem map_shown_of_render_eq_dense :
    let style : Style := ⟨0, 0, "A\n"⟩
    let rest : List Declaration := [.function { returnType := "short", name := "f", params :=
      [⟨"long", "a.b"⟩, ⟨"bool", "c"⟩] }, .var ⟨"char", "c", some "0;static int y = 0"⟩]
    let ds : List Declaration := [.inclusion ⟨"math.h"⟩, .inclusion ⟨"stdio.h"⟩,
      .var ⟨"int", "x", none⟩, .function { returnType := "int", name := "main", params :=
        [⟨"int", "n"⟩] }] ++ rest
    let es : List Declaration := [.var ⟨"int", "x", some "0"⟩, .inclusion ⟨"stdio.h"⟩,
      .function { returnType := "void", name := "main", params := [] }] ++ rest
    let p : Program := ⟨ds.map (⟨·, .point 0⟩)⟩
    let q : Program := ⟨es.map (⟨·, .point 0⟩)⟩
    p.nodes ≠ q.nodes ∧ p.render .java style = q.render .java style ∧
      (p.includes.countP fun i => i.library = "stdio.h") =
        (q.includes.countP fun i => i.library = "stdio.h") ∧
      p.members.map shown = q.members.map shown := by
  intro style rest ds es p q
  have hp : ∀ d ∈ p.nodes, d.isLegible = true := by decide +kernel
  have hq : ∀ d ∈ q.nodes, d.isLegible = true := by decide +kernel
  have h : p.render .java style = q.render .java style := by decide +kernel
  exact ⟨by decide +kernel, h, map_shown_of_render_eq hp hq h⟩

end Java

end Scaffold
