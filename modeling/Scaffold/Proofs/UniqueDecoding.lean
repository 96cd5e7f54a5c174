import Scaffold.Proofs.WordGrammar

/-!
# Texts that can be taken apart again

Items are written one after the other with a separator between them and a tail behind
the last one. The whole text tells the items if each of them can be told from what
follows it, and if no tail begins like another item.
-/
namespace Scaffold

/-- A run of a class is told apart from a text behind it that starts outside of the class. -/
lemma run_append_inj {α : Type} {p : α → Bool} {run run' rest rest' : List α}
    (h : run ++ rest = run' ++ rest') (hrun : run.all p = true) (hrun' : run'.all p = true)
    (hrest : rest.head?.any p = false) (hrest' : rest'.head?.any p = false) :
    run = run' ∧ rest = rest' := by
  obtain ⟨htake, hdrop⟩ := takeWhile_append_of_run run rest hrun hrest
  obtain ⟨htake', hdrop'⟩ := takeWhile_append_of_run run' rest' hrun' hrest'
  rw [h] at htake hdrop
  exact ⟨htake.symm.trans htake', hdrop.symm.trans hdrop'⟩

lemma head?_append_cons_ne {α : Type} {run rest : List α} {a b : α} (hrun : ∀ c ∈ run, c ≠ b)
    (ha : a ≠ b) : (run ++ a :: rest).head? ≠ some b := by
  cases run with
  | nil => simpa using ha
  | cons c run => simpa using hrun c (by simp)

variable {α β : Type}

/-- What can stand behind an item: a tail, or the separator and another item. -/
inductive Follows (code : α → List Char) (sep : List Char) (IsItem : α → Prop)
    (IsTail : List Char → Prop) : List Char → Prop
  | tail {r : List Char} : IsTail r → Follows code sep IsItem IsTail r
  | item {x : α} (r : List Char) : IsItem x → Follows code sep IsItem IsTail (sep ++ (code x ++ r))

/-- A way to write items such that `key` can be read off each of them in its place. -/
structure Separable (code : α → List Char) (sep : List Char) (IsItem : α → Prop)
    (IsTail : List Char → Prop) (key : α → β) : Prop where
  item_inj {x y : α} {r s : List Char} : IsItem x → IsItem y →
    Follows code sep IsItem IsTail r → Follows code sep IsItem IsTail s →
    code x ++ r = code y ++ s → key x = key y ∧ r = s
  not_isTail_item {x : α} (r : List Char) : IsItem x → ¬IsTail (code x ++ r)
  not_isTail_sep {x : α} (r : List Char) : IsItem x → ¬IsTail (sep ++ (code x ++ r))

namespace Separable

variable {code : α → List Char} {sep : List Char} {IsItem : α → Prop}
  {IsTail : List Char → Prop} {key : α → β} {xs ys : List α} {r s : List Char}

lemma follows_flatMap (hxs : ∀ x ∈ xs, IsItem x) (hr : IsTail r) :
    Follows code sep IsItem IsTail (xs.flatMap (fun x => sep ++ code x) ++ r) := by
  cases xs with
  | nil => exact Follows.tail hr
  | cons x xs =>
    rw [List.flatMap_cons, List.append_assoc, List.append_assoc]
    exact Follows.item _ (hxs x (by simp))

/-- Items with a separator in front of each. -/
theorem flatMap_inj (h : Separable code sep IsItem IsTail key) (hxs : ∀ x ∈ xs, IsItem x)
    (hys : ∀ y ∈ ys, IsItem y) (hr : IsTail r) (hs : IsTail s)
    (heq : xs.flatMap (fun x => sep ++ code x) ++ r = ys.flatMap (fun y => sep ++ code y) ++ s) :
    xs.map key = ys.map key ∧ r = s := by
  induction xs generalizing ys with
  | nil =>
    cases ys with
    | nil => exact ⟨rfl, heq⟩
    | cons y ys =>
      simp only [List.flatMap_nil, List.nil_append, List.flatMap_cons, List.append_assoc] at heq
      rw [heq] at hr
      exact absurd hr (h.not_isTail_sep _ (hys y (by simp)))
  | cons x xs ih =>
    cases ys with
    | nil =>
      simp only [List.flatMap_nil, List.nil_append, List.flatMap_cons, List.append_assoc] at heq
      rw [← heq] at hs
      exact absurd hs (h.not_isTail_sep _ (hxs x (by simp)))
    | cons y ys =>
      obtain ⟨hx, hxs⟩ := List.forall_mem_cons.mp hxs
      obtain ⟨hy, hys⟩ := List.forall_mem_cons.mp hys
      simp only [List.flatMap_cons, List.append_assoc] at heq
      obtain ⟨hkey, hrest⟩ := h.item_inj hx hy (follows_flatMap hxs hr) (follows_flatMap hys hs)
        (List.append_cancel_left heq)
      obtain ⟨hkeys, htail⟩ := ih hxs hys hrest
      exact ⟨by rw [List.map_cons, List.map_cons, hkey, hkeys], htail⟩

lemma intercalate_map_cons (x : α) (xs : List α) : sep.intercalate ((x :: xs).map code) =
    code x ++ xs.flatMap fun y => sep ++ code y := by
  induction xs generalizing x with
  | nil => simp
  | cons y ys ih =>
    rw [List.map_cons, List.map_cons, List.intercalate_cons_cons, ← List.map_cons, ih,
      List.flatMap_cons, List.append_assoc, List.append_assoc]

/-- Items with a separator between any two. -/
theorem intercalate_inj (h : Separable code sep IsItem IsTail key) (hxs : ∀ x ∈ xs, IsItem x)
    (hys : ∀ y ∈ ys, IsItem y) (hr : IsTail r) (hs : IsTail s)
    (heq : sep.intercalate (xs.map code) ++ r = sep.intercalate (ys.map code) ++ s) :
    xs.map key = ys.map key ∧ r = s := by
  cases xs with
  | nil =>
    cases ys with
    | nil => exact ⟨rfl, heq⟩
    | cons y ys =>
      rw [intercalate_map_cons, List.append_assoc, List.map_nil, List.intercalate_nil,
        List.nil_append] at heq
      rw [heq] at hr
      exact absurd hr (h.not_isTail_item _ (hys y (by simp)))
  | cons x xs =>
    cases ys with
    | nil =>
      rw [intercalate_map_cons, List.append_assoc, List.map_nil, List.intercalate_nil,
        List.nil_append] at heq
      rw [← heq] at hs
      exact absurd hs (h.not_isTail_item _ (hxs x (by simp)))
    | cons y ys =>
      obtain ⟨hx, hxs⟩ := List.forall_mem_cons.mp hxs
      obtain ⟨hy, hys⟩ := List.forall_mem_cons.mp hys
      rw [intercalate_map_cons, intercalate_map_cons, List.append_assoc, List.append_assoc] at heq
      obtain ⟨hkey, hrest⟩ := h.item_inj hx hy (follows_flatMap hxs hr) (follows_flatMap hys hs) heq
      obtain ⟨hkeys, htail⟩ := h.flatMap_inj hxs hys hr hs hrest
      exact ⟨by rw [List.map_cons, List.map_cons, hkey, hkeys], htail⟩

end Separable

end Scaffold
