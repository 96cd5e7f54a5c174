import Scaffold.Proofs.Fragments
import Scaffold.Proofs.Lookahead
import Scaffold.Proofs.UniqueDecoding

/-!
# Members of Java skeletons

A member shows its declaration except for two things: a variable without a value looks
like one with the default, and an entry point does not show its signature. All the rest
can be read off the text, since parameters and members can be told from what follows
them. Types and names have to be legible for that.
-/
namespace Scaffold

/-- The names of the source language's primitive types. -/
def isPrimitive (type : String) : Bool := (Primitive.ofSpelling? type).isSome

/-- Parameters of a primitive type with a word for a name. -/
def Param.isLegible (p : Param) : Bool := isPrimitive p.type && Word.isWord p.name.toList

namespace Declaration

/-- Declarations with primitive types, words for names and values of one line. -/
def isLegible : Declaration → Bool
  | inclusion _ => true
  | function f => isPrimitive f.returnType && Word.isWord f.name.toList &&
      f.params.all Param.isLegible
  | var v => isPrimitive v.type && Word.isWord v.name.toList &&
      v.initializer?.all fun value => !value.toList.contains '\n'

end Declaration

namespace Java

/-- A variable with its value written out, and an entry point without its signature. -/
def shown : Declaration → Declaration
  | .inclusion i => .inclusion i
  | .function f =>
    .function (if f.isEntry then { returnType := "", name := f.name, params := [] } else f)
  | .var v => .var { v with initializer? := some (v.initializer?.getD (spellingOf v.type).default) }

/-- The text of a member at a level. -/
def memberChars (unit : List Char) (level : Nat) (d : Declaration) : List Char :=
  Step.writeAll unit level (Target.java.rule d)

lemma spelling_name_injective {p q : Primitive} (h : (spelling p).name = (spelling q).name) :
    p = q := by
  revert h
  cases p <;> cases q <;> decide

lemma spellingOf_name_inj {s t : String} (hs : isPrimitive s = true) (ht : isPrimitive t = true)
    (h : (spellingOf s).name.toList = (spellingOf t).name.toList) : s = t := by
  obtain ⟨p, hp⟩ := Option.isSome_iff_exists.mp hs
  obtain ⟨q, hq⟩ := Option.isSome_iff_exists.mp ht
  have hps : p.spelling = s := by simpa using List.find?_some hp
  have hqt : q.spelling = t := by simpa using List.find?_some hq
  simp only [spellingOf, hp, hq, Option.map_some, Option.getD_some] at h
  rw [← hps, ← hqt, spelling_name_injective (String.toList_inj.mp h)]

/-- Characters of names and of types. -/
def isNameChar (c : Char) : Bool := Word.continues c || c = '.'

lemma all_isNameChar_of_isWord {cs : List Char} (h : Word.isWord cs = true) :
    cs.all isNameChar = true := by
  rw [List.all_eq_true]
  intro c hc
  simpa [isNameChar] using Word.continues_or_dot_of_isWord h c hc

lemma all_isNameChar_spellingOf (type : String) :
    (spellingOf type).name.toList.all isNameChar = true := by
  unfold spellingOf
  cases Primitive.ofSpelling? type with
  | none => decide
  | some p => cases p <;> decide

/-- A type and a name can be told from what follows them. -/
lemma typed_inj {type type' : String} {name name' r s : List Char}
    (h : (spellingOf type).name.toList ++ ' ' :: (name ++ r) =
      (spellingOf type').name.toList ++ ' ' :: (name' ++ s))
    (htype : isPrimitive type = true) (htype' : isPrimitive type' = true)
    (hname : Word.isWord name = true) (hname' : Word.isWord name' = true)
    (hr : r.head?.any isNameChar = false) (hs : s.head?.any isNameChar = false) :
    type = type' ∧ name = name' ∧ r = s := by
  obtain ⟨htypes, hrest⟩ := run_append_inj h (all_isNameChar_spellingOf type)
    (all_isNameChar_spellingOf type') rfl rfl
  obtain ⟨hnames, hrest⟩ := run_append_inj (List.cons.inj hrest).2
    (all_isNameChar_of_isWord hname) (all_isNameChar_of_isWord hname') hr hs
  exact ⟨spellingOf_name_inj htype htype' htypes, hnames, hrest⟩

lemma toList_param (p : Param) :
    (param p).toList = (spellingOf p.type).name.toList ++ ' ' :: p.name.toList := by
  simp [param]

/-- Parameters can be told from a list of them that ends in a parenthesis. -/
lemma separable_params : Separable (fun p => (param p).toList) [',', ' ']
    (fun p => p.isLegible = true) (fun r => r.head? = some ')') id := by
  have hfollows : ∀ {r : List Char}, Follows (fun p => (param p).toList) [',', ' ']
      (fun p => p.isLegible = true) (fun r => r.head? = some ')') r →
      r.head?.any isNameChar = false := by
    rintro r (hr | _)
    · rw [hr]
      decide
    · rfl
  constructor
  case item_inj =>
    intro p q r s hp hq hr hs h
    simp only [Param.isLegible, Bool.and_eq_true] at hp hq
    simp only [toList_param, List.append_assoc, List.cons_append] at h
    obtain ⟨htype, hname, hrest⟩ :=
      typed_inj h hp.1 hq.1 hp.2 hq.2 (hfollows hr) (hfollows hs)
    refine ⟨?_, hrest⟩
    cases p
    cases q
    simp_all [String.toList_inj]
  case not_isTail_item =>
    intro p r _
    simp only [toList_param, List.append_assoc, List.cons_append]
    refine head?_append_cons_ne ?_ (by decide)
    intro c hc
    have hchar := List.all_eq_true.mp (all_isNameChar_spellingOf p.type) c hc
    rintro rfl
    revert hchar
    decide
  case not_isTail_sep =>
    intro p r _ h
    simp at h

/-- A static method up to the parenthesis that closes its parameters, and the rest. -/
def methodChars (type name params rest : List Char) : List Char :=
  "public static ".toList ++ (type ++ ' ' :: (name ++ '(' :: (params ++ ')' :: rest)))

lemma signature_eq (f : Function) : signature f = "public static " ++
    (spellingOf f.returnType).name ++ " " ++ f.name ++ "(" ++
      ", ".intercalate (f.params.map param) ++ ")" := by rfl

lemma toList_signature_append (f : Function) (rest : List Char) :
    (signature f).toList ++ rest = methodChars (spellingOf f.returnType).name.toList
      f.name.toList ([',', ' '].intercalate (f.params.map fun p => (param p).toList)) rest := by
  rw [signature_eq]
  simp only [String.toList_append, String.toList_intercalate, List.map_map, List.append_assoc]
  rfl

lemma methodChars_inj {type type' name name' params params' r s : List Char}
    (h : methodChars type name params r = methodChars type' name' params' s)
    (htype : type.all isNameChar = true) (htype' : type'.all isNameChar = true)
    (hname : name.all isNameChar = true) (hname' : name'.all isNameChar = true) :
    type = type' ∧ name = name' ∧ params ++ ')' :: r = params' ++ ')' :: s := by
  obtain ⟨htypes, hrest⟩ := run_append_inj (List.append_cancel_left h) htype htype' rfl rfl
  obtain ⟨hnames, hrest⟩ := run_append_inj (List.cons.inj hrest).2 hname hname' rfl rfl
  exact ⟨htypes, hnames, (List.cons.inj hrest).2⟩

section Members

variable (unit : List Char) (level : Nat)

/-- The text of a block behind its header. -/
def bodyChars (body : List Step) : List Char :=
  [' ', '\x7b', '\n'] ++ (Step.writeAll unit (level + 1) body ++ lineChars unit level ['\x7d'])

lemma writeAll_block_append (header : String) (body : List Step) (r : List Char) :
    Step.writeAll unit level [.block header body] ++ r =
      marginChars unit level ++ (header.toList ++ (bodyChars unit level body ++ r)) := by
  simp [lineChars, bodyChars]

lemma memberChars_var_append (v : Variable) (r : List Char) :
    memberChars unit level (.var v) ++ r = marginChars unit level ++ ("static ".toList ++
      ((spellingOf v.type).name.toList ++ ' ' :: (v.name.toList ++ ([' ', '=', ' '] ++
        ((v.initializer?.getD (spellingOf v.type).default).toList ++ [';'] ++ '\n' :: r))))) := by
  simp [memberChars, Target.rule, Target.variableSteps, field, lineChars]

/-- All methods go on alike behind their signatures. -/
lemma exists_memberChars_function_append : ∃ stub : List Char, ∀ f : Function,
    f.isEntry = false → ∀ r, memberChars unit level (.function f) ++ r =
      marginChars unit level ++ methodChars (spellingOf f.returnType).name.toList f.name.toList
        ([',', ' '].intercalate (f.params.map fun p => (param p).toList)) (stub ++ r) := by
  refine ⟨bodyChars unit level
    [.line "throw new UnsupportedOperationException(\"Not implemented\");"], fun f hf r => ?_⟩
  have hname : f.name ≠ "main" := by
    rw [Ne, ← f.isEntry_iff, hf]
    simp
  have hrule : Target.java.rule (.function f) = function f := if_neg hname
  rw [memberChars, hrule, function, writeAll_block_append, toList_signature_append]

/-- All entry points have one text. -/
lemma exists_memberChars_entry_append : ∃ stub : List Char, ∀ f : Function,
    f.isEntry = true → ∀ r, memberChars unit level (.function f) ++ r =
      marginChars unit level ++ methodChars "void".toList "main".toList
        "String[] args".toList (stub ++ r) := by
  refine ⟨bodyChars unit level [.line "Scanner scanner = new Scanner(System.in);",
    .line "System.out.println(\"Program translated from C\");"], fun f hf r => ?_⟩
  have hrule : Target.java.rule (.function f) = entryPoint := if_pos (f.isEntry_iff.mp hf)
  rw [memberChars, hrule, entryPoint, writeAll_block_append]
  rfl

end Members

section Decoding

variable {unit : List Char} {level : Nat} {r s : List Char}

lemma all_ne_newline_of_isLegible {v : Variable} (h : (Declaration.var v).isLegible = true) :
    ((v.initializer?.getD (spellingOf v.type).default).toList ++ [';']).all (· != '\n') = true := by
  have hdefault : (spellingOf v.type).default.toList.all (· != '\n') = true := by
    unfold spellingOf
    cases Primitive.ofSpelling? v.type with
    | none => decide
    | some p => cases p <;> decide
  rw [List.all_append, Bool.and_eq_true]
  refine ⟨?_, by decide⟩
  cases hv : v.initializer? with
  | none => exact hdefault
  | some value =>
    simp only [Declaration.isLegible, hv, Bool.and_eq_true, Option.all_some] at h
    have hvalue : '\n' ∉ value.toList := by simpa using h.2
    rw [Option.getD_some, List.all_eq_true]
    intro c hc
    exact bne_iff_ne.mpr (ne_of_mem_of_not_mem hc hvalue)

lemma memberChars_var_inj {v w : Variable} (hv : (Declaration.var v).isLegible = true)
    (hw : (Declaration.var w).isLegible = true)
    (h : memberChars unit level (.var v) ++ r = memberChars unit level (.var w) ++ s) :
    shown (.var v) = shown (.var w) ∧ r = s := by
  have hlines := all_ne_newline_of_isLegible hv
  have hlines' := all_ne_newline_of_isLegible hw
  simp only [Declaration.isLegible, Bool.and_eq_true] at hv hw
  rw [memberChars_var_append, memberChars_var_append] at h
  obtain ⟨htype, hname, hrest⟩ := typed_inj
    (List.append_cancel_left (List.append_cancel_left h)) hv.1.1 hw.1.1 hv.1.2 hw.1.2 rfl rfl
  obtain ⟨hvalue, hend⟩ := run_append_inj (List.append_cancel_left hrest) hlines hlines' rfl rfl
  have hvalues := String.toList_inj.mp (List.append_cancel_right hvalue)
  refine ⟨?_, (List.cons.inj hend).2⟩
  simp only [shown, htype, String.toList_inj.mp hname] at hvalues ⊢
  rw [hvalues]

lemma memberChars_method_inj {f g : Function} (hf : (Declaration.function f).isLegible = true)
    (hg : (Declaration.function g).isLegible = true) (hfe : f.isEntry = false)
    (hge : g.isEntry = false)
    (h : memberChars unit level (.function f) ++ r = memberChars unit level (.function g) ++ s) :
    f = g ∧ r = s := by
  obtain ⟨stub, hstub⟩ := exists_memberChars_function_append unit level
  simp only [Declaration.isLegible, Bool.and_eq_true, List.all_eq_true] at hf hg
  rw [hstub f hfe, hstub g hge] at h
  obtain ⟨htypes, hnames, hrest⟩ := methodChars_inj (List.append_cancel_left h)
    (all_isNameChar_spellingOf _) (all_isNameChar_spellingOf _)
    (all_isNameChar_of_isWord hf.1.2) (all_isNameChar_of_isWord hg.1.2)
  obtain ⟨hparams, hend⟩ := separable_params.intercalate_inj hf.2 hg.2 rfl rfl hrest
  refine ⟨?_, List.append_cancel_left (List.cons.inj hend).2⟩
  have htype := spellingOf_name_inj hf.1.1 hg.1.1 htypes
  have hname := String.toList_inj.mp hnames
  have hbody := f.body_eq_nil.trans g.body_eq_nil.symm
  cases f
  cases g
  simp_all

/-- No other method has the name of the entry point. -/
lemma memberChars_entry_ne_method {f g : Function}
    (hg : (Declaration.function g).isLegible = true) (hfe : f.isEntry = true)
    (hge : g.isEntry = false) :
    memberChars unit level (.function f) ++ r ≠ memberChars unit level (.function g) ++ s := by
  intro h
  obtain ⟨stub, hstub⟩ := exists_memberChars_function_append unit level
  obtain ⟨entry, hentry⟩ := exists_memberChars_entry_append unit level
  simp only [Declaration.isLegible, Bool.and_eq_true] at hg
  rw [hentry f hfe, hstub g hge] at h
  obtain ⟨-, hname, -⟩ := methodChars_inj (List.append_cancel_left h) (by decide)
    (all_isNameChar_spellingOf _) (by decide) (all_isNameChar_of_isWord hg.1.2)
  exact of_decide_eq_false hge (String.toList_inj.mp hname).symm

lemma memberChars_function_inj {f g : Function} (hf : (Declaration.function f).isLegible = true)
    (hg : (Declaration.function g).isLegible = true)
    (h : memberChars unit level (.function f) ++ r = memberChars unit level (.function g) ++ s) :
    shown (.function f) = shown (.function g) ∧ r = s := by
  cases hfe : f.isEntry <;> cases hge : g.isEntry
  case false.false =>
    obtain ⟨rfl, hrest⟩ := memberChars_method_inj hf hg hfe hge h
    exact ⟨rfl, hrest⟩
  case false.true => exact absurd h.symm (memberChars_entry_ne_method hf hge hfe)
  case true.false => exact absurd h (memberChars_entry_ne_method hg hfe hge)
  case true.true =>
    obtain ⟨entry, hentry⟩ := exists_memberChars_entry_append unit level
    rw [hentry f hfe, hentry g hge] at h
    have hname : f.name = g.name := (of_decide_eq_true hfe).trans (of_decide_eq_true hge).symm
    refine ⟨by simp only [shown, hfe, hge, if_true, hname], ?_⟩
    obtain ⟨-, -, hrest⟩ := methodChars_inj (List.append_cancel_left h) (by decide) (by decide)
      (by decide) (by decide)
    exact List.append_cancel_left (List.cons.inj (List.append_cancel_left hrest)).2

lemma exists_memberChars_function (unit : List Char) (level : Nat) (f : Function)
    (r : List Char) : ∃ rest, memberChars unit level (.function f) ++ r =
      marginChars unit level ++ ("public static ".toList ++ rest) := by
  cases hf : f.isEntry
  · obtain ⟨stub, hstub⟩ := exists_memberChars_function_append unit level
    exact ⟨_, hstub f hf r⟩
  · obtain ⟨stub, hstub⟩ := exists_memberChars_entry_append unit level
    exact ⟨_, hstub f hf r⟩

lemma memberChars_function_ne_var (f : Function) (v : Variable) :
    memberChars unit level (.function f) ++ r ≠ memberChars unit level (.var v) ++ s := by
  intro h
  obtain ⟨rest, htext⟩ := exists_memberChars_function unit level f r
  rw [htext, memberChars_var_append] at h
  have hhead : some 'p' = some 's' := congrArg List.head? (List.append_cancel_left h)
  exact absurd hhead (by decide)

/-- How members begin. -/
lemma exists_memberChars_append (unit : List Char) (level : Nat) {d : Declaration}
    (hd : d.isInclusion = false) (r : List Char) :
    ∃ head ∈ ["static ".toList, "public static ".toList], ∃ rest,
      memberChars unit level d ++ r = marginChars unit level ++ (head ++ rest) := by
  cases d with
  | inclusion => contradiction
  | function f =>
    exact ⟨"public static ".toList, by simp, exists_memberChars_function unit level f r⟩
  | var v => exact ⟨"static ".toList, by simp, _, memberChars_var_append unit level v r⟩

end Decoding

/-- Members begin neither like an import nor like the end of a class, also behind blank lines. -/
lemma exists_head_memberChars (style : Style) (level gap : Nat) {d : Declaration}
    (hd : d.isInclusion = false) (r : List Char) :
    ∃ c ∈ ['\n', ' ', 's', 'p'],
      (List.replicate gap '\n' ++ (memberChars style.unit level d ++ r)).head? = some c := by
  obtain ⟨head, hhead, rest, htext⟩ := exists_memberChars_append style.unit level hd r
  rw [htext]
  cases gap with
  | succ gap => exact ⟨'\n', by simp, rfl⟩
  | zero =>
    rw [List.replicate_zero, List.nil_append]
    cases hmargin : marginChars style.unit level with
    | cons c margin =>
      have hspace : c = ' ' := Style.eq_space_of_mem_unit
        (mem_of_mem_marginChars (hmargin ▸ List.mem_cons_self : c ∈ marginChars style.unit level))
      exact ⟨c, by simp [hspace], rfl⟩
    | nil =>
      simp only [List.mem_cons, List.not_mem_nil, or_false] at hhead
      obtain rfl | rfl := hhead
      · exact ⟨'s', by simp, rfl⟩
      · exact ⟨'p', by simp, rfl⟩

/-- Members can be told from their text with blank lines between them, up to the end of the
text or of the class around them. -/
lemma separable_members (style : Style) (level gap : Nat) :
    Separable (memberChars style.unit level) (List.replicate gap '\n')
      (fun d => d.isInclusion = false ∧ d.isLegible = true)
      (fun r => ∀ c ∈ r.head?, c = '\x7d') shown := by
  have not_tail : ∀ {d : Declaration} (gap : Nat) (r : List Char), d.isInclusion = false →
      ¬∀ c ∈ (List.replicate gap '\n' ++ (memberChars style.unit level d ++ r)).head?,
        c = '\x7d' := by
    intro d gap r hd htail
    obtain ⟨c, hc, hhead⟩ := exists_head_memberChars style level gap hd r
    rw [htail c hhead] at hc
    exact absurd hc (by decide)
  constructor
  case item_inj =>
    rintro d e r s ⟨hd, hdl⟩ ⟨he, hel⟩ - - h
    cases d with
    | inclusion => contradiction
    | function f =>
      cases e with
      | inclusion => contradiction
      | function g => exact memberChars_function_inj hdl hel h
      | var w => exact absurd h (memberChars_function_ne_var f w)
    | var v =>
      cases e with
      | inclusion => contradiction
      | function g => exact absurd h.symm (memberChars_function_ne_var g v)
      | var w => exact memberChars_var_inj hdl hel h
  case not_isTail_item =>
    rintro d r ⟨hd, -⟩
    exact not_tail 0 r hd
  case not_isTail_sep =>
    rintro d r ⟨hd, -⟩
    exact not_tail gap r hd

end Java

end Scaffold
