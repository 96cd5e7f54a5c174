import Scaffold.Proofs.LayoutText

/-!
# Nested layouts

Steps open and close levels one by one, and blocks and suites do so around their bodies.
A layout is balanced when, outermost and in each body, no level is closed that was not
opened there and none is left open. A page then comes back to the level it started from,
and what it writes is known from the nesting alone: everything in the outline of the
layout stands as many levels below that level as its depth says.
-/
namespace Scaffold

namespace Step

def isIndent : Step → Bool
  | indent => true
  | _ => false

def isDedent : Step → Bool
  | dedent => true
  | _ => false

/-- The number of levels that the steps open, without those in their bodies. -/
def indents (ss : List Step) : Nat := ss.countP isIndent

/-- The number of levels that the steps close, without those in their bodies. -/
def dedents (ss : List Step) : Nat := ss.countP isDedent

/-- The steps inside of a block or a suite. -/
def body? : Step → Option (List Step)
  | block _ body => some body
  | suite _ body => some body
  | _ => none

/-- Steps that never close more levels than they have opened and close all of them in the
end. The same holds of each body among them. -/
inductive Balanced : List Step → Prop
  | intro {ss : List Step} : (∀ front, front <+: ss → dedents front ≤ indents front) →
      indents ss = dedents ss → (∀ s ∈ ss, ∀ body ∈ s.body?, Balanced body) → Balanced ss

@[simp] lemma indents_nil : indents [] = 0 := rfl

@[simp] lemma dedents_nil : dedents [] = 0 := rfl

lemma indents_cons (s : Step) (ss : List Step) :
    indents (s :: ss) = s.isIndent.toNat + indents ss := by
  rw [indents, List.countP_cons, Nat.add_comm]
  cases s.isIndent <;> rfl

lemma dedents_cons (s : Step) (ss : List Step) :
    dedents (s :: ss) = s.isDedent.toNat + dedents ss := by
  rw [dedents, List.countP_cons, Nat.add_comm]
  cases s.isDedent <;> rfl

lemma isBalanced_iff (opened : Nat) (s : Step) : isBalanced opened s = true ↔
    s.isDedent.toNat ≤ opened + s.isIndent.toNat ∧
      ∀ body ∈ s.body?, areBalanced 0 body = true := by
  cases s with
  | dedent => simp [isBalanced, body?, isDedent, isIndent, Nat.succ_le_iff]
  | _ => simp [isBalanced, body?, isDedent]

lemma levelAfter_add {opened : Nat} {s : Step}
    (h : s.isDedent.toNat ≤ opened + s.isIndent.toNat) :
    s.levelAfter opened + s.isDedent.toNat = opened + s.isIndent.toNat := by
  cases s with
  | dedent => exact Nat.sub_add_cancel h
  | _ => rfl

/-- The check from left to right in terms of counts, with some levels open already. -/
lemma areBalanced_iff (opened : Nat) (ss : List Step) : areBalanced opened ss = true ↔
    (∀ front, front <+: ss → dedents front ≤ opened + indents front) ∧
      opened + indents ss = dedents ss ∧
      ∀ s ∈ ss, ∀ body ∈ s.body?, areBalanced 0 body = true := by
  induction ss generalizing opened with
  | nil => simp [areBalanced]
  | cons s rest ih =>
    rw [areBalanced, Bool.and_eq_true, ih, isBalanced_iff, List.forall_mem_cons, indents_cons,
      dedents_cons]
    constructor
    · rintro ⟨⟨hstep, hbody⟩, hfront, htotal, hbodies⟩
      have hafter := levelAfter_add hstep
      refine ⟨?_, by omega, hbody, hbodies⟩
      intro front h
      rcases List.prefix_cons_iff.mp h with rfl | ⟨more, rfl, hmore⟩
      · exact Nat.zero_le _
      · have hle := hfront more hmore
        rw [indents_cons, dedents_cons]
        omega
    · rintro ⟨hfront, htotal, hbody, hbodies⟩
      have hstep : s.isDedent.toNat ≤ opened + s.isIndent.toNat := by
        simpa [indents_cons, dedents_cons] using hfront [s] (by simp)
      have hafter := levelAfter_add hstep
      refine ⟨⟨hstep, hbody⟩, ?_, by omega, hbodies⟩
      intro more hmore
      have hle := hfront (s :: more) (List.cons_prefix_cons.mpr ⟨rfl, hmore⟩)
      rw [indents_cons, dedents_cons] at hle
      omega

lemma Balanced.areBalanced {ss : List Step} (h : Balanced ss) : areBalanced 0 ss = true := by
  induction h with
  | intro hfront htotal _ ih =>
    exact (areBalanced_iff 0 _).mpr ⟨by simpa using hfront, by simpa using htotal, ih⟩

lemma sizeOf_lt_of_mem_body? {s : Step} {body : List Step} (h : body ∈ s.body?) :
    sizeOf body < sizeOf s := by
  cases s with
  | block header inner | suite header inner =>
    cases h
    simp only [block.sizeOf_spec, suite.sizeOf_spec]
    omega
  | _ => cases h

lemma balanced_of_areBalanced (ss : List Step) (h : areBalanced 0 ss = true) : Balanced ss := by
  obtain ⟨hfront, htotal, hbodies⟩ := (areBalanced_iff 0 ss).mp h
  refine Balanced.intro (by simpa using hfront) (by simpa using htotal) fun s hs body hbody => ?_
  have hsmaller := Nat.lt_trans (sizeOf_lt_of_mem_body? hbody) (List.sizeOf_lt_of_mem hs)
  exact balanced_of_areBalanced body (hbodies s hs body hbody)
termination_by sizeOf ss

instance (ss : List Step) : Decidable (Balanced ss) :=
  decidable_of_iff (areBalanced 0 ss = true) ⟨balanced_of_areBalanced ss, Balanced.areBalanced⟩

end Step

/-- A page comes back to its level from balanced steps. It keeps its text and adds that of the
outline, in which each item stands its depth below the level of the page. -/
theorem Page.steps_of_balanced (p : Page) {ss : List Step} (h : Step.Balanced ss) :
    p.steps ss = { p with
      text := p.text ++
        String.ofList ((Step.outlineAll 0 ss).flatMap (Item.write p.unit.toList p.level)) } := by
  have hbalanced := h.areBalanced
  have houtline := Step.outlineAll_add p.level ss hbalanced (Nat.le_refl 0)
  rw [Nat.add_zero] at houtline
  have htext : Step.writeAll p.unit.toList p.level ss =
      (Step.outlineAll 0 ss).flatMap (Item.write p.unit.toList p.level) := by
    rw [Step.writeAll, houtline, List.flatMap_map]
    simp only [Item.write_deeper, Nat.zero_add]
  rw [steps_eq p ss hbalanced (Nat.zero_le _), htext, Nat.sub_zero]

/-- Levels opened in a body, around a block and at the top, on a page that is in use. -/
theorem Page.steps_of_balanced_mixed :
    let p : Page := { text := "a", level := 1, unit := "\t" }
    let ss : List Step := [.indent, .block "b" [.indent, .line "c", .dedent, .suite "d" [.margin]],
      .blanks 2, .dedent, .line "e"]
    Step.Balanced ss ∧ p.steps ss =
      { p with text := "a\t\tb \x7b\n\t\t\t\tc\n\t\t\td:\n\t\t\t\t\t\t\x7d\n\n\n\te\n" } := by
  intro p ss
  have hbalanced : Step.Balanced ss := by decide
  refine ⟨hbalanced, ?_⟩
  rw [Page.steps_of_balanced p hbalanced]
  decide

end Scaffold
