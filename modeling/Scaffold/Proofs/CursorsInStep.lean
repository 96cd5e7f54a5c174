import Mathlib.Logic.Relation
import Scaffold.Proofs.ScanInvariant

/-!
# The two cursors of a scan stay in step

At each point of a scan the scanner's own offset lies on a boundary of the source, and the
stream has exactly the characters behind it left. So a look at two characters sees
neighbours, no cut can fail, each piece uses up a character, and the scan comes to its end
with the tokens of the source.
-/
namespace Scaffold

namespace ScanTask

/-- How many steps without a character a task can be away from the end. -/
def rank : ScanTask → Nat
  | finished => 0
  | between => 1
  | _ => 2

lemma rank_le (task : ScanTask) : task.rank ≤ 2 := by
  cases task <;> simp [rank]

lemma rank_of_inside {task : ScanTask} (hbetween : task ≠ .between) (hopen : task ≠ .finished) :
    task.rank = 2 := by
  cases task <;> simp_all [rank]

end ScanTask

namespace Scanner

section Points

variable {source : String} {s : Scanner}

lemma Sound.placed (h : Sound source s) : ∃ before sofar, Placed source before sofar s := by
  cases h with
  | finished htask hplaced => exact ⟨_, _, hplaced⟩
  | between htask hstands | word htask hstands | numeral htask hstands
  | quoted htask hstands | sign htask hstands => exact ⟨_, _, hstands.toPlaced⟩

/-- What a task will cut out could be cut out at once. -/
lemma Sound.exists_cut {start : Nat} (h : Sound source s) (hstart : start ∈ s.task.cuts) :
    ∃ text, s.cut? start = some text := by
  cases h with
  | word htask hstands | numeral htask hstands =>
    rw [htask] at hstart
    rw [List.mem_singleton.mp hstart]
    exact ⟨_, hstands.cut?_whole⟩
  | quoted htask hstands =>
    rw [htask] at hstart
    rw [List.mem_singleton.mp hstart]
    exact ⟨_, hstands.cut?_eq⟩
  | between htask | sign htask | finished htask =>
    rw [htask] at hstart
    cases hstart

end Points

/-- One point of a scan is a step behind another one. -/
def StepsTo (s t : Scanner) : Prop := s.step = some t

section Runs

open Relation

variable {source : String} {s t : Scanner}

/-- Bounds the number of steps that are left: a character costs a step to take it, one to end
its piece and one to spare. -/
def todo (s : Scanner) : Nat := 3 * s.stream.unread.length + s.task.rank

lemma Moves.todo_lt (h : Moves s t) (hopen : s.task ≠ .finished) : t.todo < s.todo := by
  unfold todo
  cases h with
  | take c hunread =>
    have hrank := t.task.rank_le
    rw [hunread, List.length_cons]
    omega
  | settle hunread hs ht =>
    rw [hunread, ScanTask.rank_of_inside hs hopen, ht, ScanTask.rank]
    omega
  | finish hs ht htask hlast =>
    rw [hs, ht, htask, hlast]
    decide

/-- A scan ends between two pieces and where nothing is left. -/
lemma Moves.task_ne_finished (h : Moves s t)
    (hmore : s.task ≠ .between ∨ s.stream.unread ≠ []) : t.task ≠ .finished := by
  cases h with
  | take _ _ ht => exact ht
  | settle _ _ ht => simp [ht]
  | finish hunread _ htask => simp [htask, hunread] at hmore

/-- Induction along a scan, from its end on. -/
@[elab_as_elim]
theorem Sound.runInduction {motive : Scanner → Prop}
    (finished : ∀ s, s.task = .finished → motive s)
    (step : ∀ s t, s.task ≠ .finished → s.step = some t → Moves s t → motive t → motive s)
    (h : Sound source s) : motive s := by
  induction hn : s.todo using Nat.strongRecOn generalizing s with
  | ind n ih =>
    by_cases hopen : s.task = .finished
    · exact finished s hopen
    · obtain ⟨t, hstep, hsound, hmoves⟩ := h.exists_step hopen
      have hlt := hmoves.todo_lt hopen
      exact step s t hopen hstep hmoves (ih t.todo (by omega) hsound rfl)

theorem Sound.exists_finished (h : Sound source s) :
    ∃ t, ReflTransGen StepsTo s t ∧ t.task = .finished := by
  refine Sound.runInduction ?_ ?_ h
  · intro s hs
    exact ⟨s, ReflTransGen.refl, hs⟩
  · rintro s t - hstep - ⟨u, hrun, hu⟩
    exact ⟨u, ReflTransGen.head hstep hrun, hu⟩

/-- A scan does not end inside of a piece. -/
theorem Sound.exists_between (h : Sound source s) (hopen : s.task ≠ .finished) :
    ∃ t, ReflTransGen StepsTo s t ∧ t.task = .between := by
  revert hopen
  refine Sound.runInduction ?_ ?_ h
  · intro s hs hopen
    exact absurd hs hopen
  · intro s t _ hstep hmoves ih _
    by_cases htask : s.task = .between
    · exact ⟨s, ReflTransGen.refl, htask⟩
    · obtain ⟨u, hrun, hu⟩ := ih (hmoves.task_ne_finished (Or.inl htask))
      exact ⟨u, ReflTransGen.head hstep hrun, hu⟩

/-- Behind a point the scan goes on with what is left there. -/
theorem Sound.of_run (h : Sound source s) (hrun : ReflTransGen StepsTo s t) :
    Sound source t ∧ ∃ used, s.stream.unread = used ++ t.stream.unread := by
  induction hrun with
  | refl => exact ⟨h, [], rfl⟩
  | tail _ hstep ih =>
    obtain ⟨hsound, used, hused⟩ := ih
    obtain ⟨hsound', more, hmore⟩ := hsound.of_step hstep
    exact ⟨hsound', used ++ more, by rw [hused, hmore, List.append_assoc]⟩

lemma Reached.of_run (h : Reached source s) (hrun : ReflTransGen StepsTo s t) :
    Reached source t := by
  induction hrun with
  | refl => exact h
  | tail _ hstep ih => exact Reached.step ih hstep

lemma Placed.pos_add {before sofar : List Char} (h : Placed source before sofar s) :
    s.pos + byteSize s.stream.unread = source.utf8ByteSize := by
  rw [← byteSize_toList, h.text_eq, h.pos_eq]
  simp only [byteSize_append]

/-- From a point between two pieces on, each later point has used up a character. -/
theorem Sound.exists_used (h : Sound source s) (htask : s.task = .between)
    (hunread : s.stream.unread ≠ []) (hrun : TransGen StepsTo s t) :
    ∃ used, used ≠ [] ∧ s.stream.unread = used ++ t.stream.unread ∧
      t.pos = s.pos + byteSize used := by
  obtain ⟨u, hfirst, hrest⟩ := TransGen.head'_iff.mp hrun
  obtain ⟨u', hstep, hsound, hmoves⟩ := h.exists_step (by simp [htask])
  obtain rfl : u' = u := Option.some.inj (hstep.symm.trans hfirst)
  obtain ⟨hlast, more, hmore⟩ := hsound.of_run hrest
  cases hmoves with
  | settle _ hne => exact absurd htask hne
  | finish hnil => exact absurd hnil hunread
  | take c hc =>
    have hused : s.stream.unread = (c :: more) ++ t.stream.unread := by rw [hc, hmore]; rfl
    obtain ⟨_, _, hs⟩ := h.placed
    obtain ⟨_, _, ht⟩ := hlast.placed
    have hpos := hs.pos_add
    have hend := ht.pos_add
    rw [hused, byteSize_append] at hpos
    exact ⟨c :: more, by simp, hused, by omega⟩

end Runs

/-- The two cursors agree at a point of the scan. -/
structure InStep (source : String) (s : Scanner) : Prop where
  boundary : (String.Pos.Raw.mk s.pos).IsValid source
  offsets : s.stream.At s.pos
  /-- The stream has left what the source has behind the offset. -/
  unread : (Span.mk s.pos source.utf8ByteSize).slice? source =
    some (String.ofList s.stream.unread)
  peek : s.peek = s.stream.unread[0]?
  /-- The character behind the next one is found by the offset. -/
  peekNext : s.peekNext? = some s.stream.unread[1]?
  cuts : ∀ start ∈ s.task.cuts, ∃ text, s.cut? start = some text

theorem Sound.inStep {source : String} {s : Scanner} (h : Sound source s) : InStep source s := by
  obtain ⟨before, sofar, hplaced⟩ := h.placed
  constructor
  case boundary =>
    rw [hplaced.pos_eq, ← byteSize_append, ← String.ofList_toList (s := source), hplaced.text_eq]
    exact Span.isValid_byteSize _ _
  case offsets => exact hplaced.stream_at
  case unread => exact hplaced.slice?_eq
  case peek => rw [hplaced.peek_eq, List.head?_eq_getElem?]
  case peekNext => exact hplaced.peekNext?_eq
  case cuts =>
    intro start hstart
    exact h.exists_cut hstart

end Scanner

/-- A scan whose cursors never drift apart. -/
structure ScansInStep (source : String) : Prop where
  inStep : ∀ s, Scanner.Reached source s → s.InStep source
  /-- No step fails at a cut. -/
  safe : ∀ s, Scanner.Reached source s → ∃ t, s.step = some t
  /-- Between two pieces, where characters are left, the scan comes to such a point again. -/
  returns : ∀ s, Scanner.Reached source s → s.task = .between → s.stream.unread ≠ [] →
    ∃ t, Relation.TransGen Scanner.StepsTo s t ∧ t.task = .between
  /-- By then, and at all points on the way, it has used up a character. -/
  consumes : ∀ s t, Scanner.Reached source s → s.task = .between → s.stream.unread ≠ [] →
    Relation.TransGen Scanner.StepsTo s t → ∃ used, used ≠ [] ∧
      s.stream.unread = used ++ t.stream.unread ∧ t.pos = s.pos + byteSize used
  finishes : ∃ s, Scanner.Reached source s ∧ s.task = .finished
  /-- In the end the offset is the size of the source, and its tokens are found. -/
  ends : ∀ s, Scanner.Reached source s → s.task = .finished →
    s.pos = source.utf8ByteSize ∧ s.found = lex source

/-- The scan of every source keeps its cursors in step. -/
theorem scansInStep (source : String) : ScansInStep source := by
  constructor
  case inStep =>
    intro s hs
    exact hs.sound.inStep
  case safe =>
    intro s hs
    by_cases hopen : s.task = .finished
    · exact ⟨s, by rw [Scanner.step, hopen]⟩
    · obtain ⟨t, hstep, -⟩ := hs.sound.exists_step hopen
      exact ⟨t, hstep⟩
  case returns =>
    intro s hs htask hunread
    obtain ⟨t, hstep, hsound, hmoves⟩ := hs.sound.exists_step (by simp [htask])
    have hopen := hmoves.task_ne_finished (Or.inr hunread)
    obtain ⟨u, hrun, hu⟩ := hsound.exists_between hopen
    exact ⟨u, Relation.TransGen.head' hstep hrun, hu⟩
  case consumes =>
    intro s t hs htask hunread hrun
    exact hs.sound.exists_used htask hunread hrun
  case finishes =>
    obtain ⟨t, hrun, ht⟩ := (Scanner.Sound.ofSource source).exists_finished
    exact ⟨t, Scanner.Reached.start.of_run hrun, ht⟩
  case ends =>
    intro s hs htask
    cases hs.sound with
    | finished _ hplaced hunread hfound =>
      have hpos := hplaced.pos_add
      rw [hunread, byteSize_nil, Nat.add_zero] at hpos
      exact ⟨hpos, hfound⟩
    | _ hother => rw [htask] at hother; cases hother

end Scaffold
