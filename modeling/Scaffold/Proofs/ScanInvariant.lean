import Scaffold.Proofs.CursorScanning

/-!
# The invariant of a scan

At each point of a scan both cursors stand at the same place: behind the text in front of
the current piece and the part of the piece that was taken. The invariant says task by
task what this part is, so that the piece ends where the task ends, and that the tokens
found lead on to those of the source. A step from a point where it holds succeeds, and it
holds again.
-/
namespace Scaffold

namespace Scanner

/-- Both cursors stand behind the text before a piece and the part of it that was taken. -/
structure Placed (source : String) (before sofar : List Char) (s : Scanner) : Prop where
  source_eq : s.source = source
  text_eq : source.toList = before ++ sofar ++ s.stream.unread
  pos_eq : s.pos = byteSize before + byteSize sofar
  stream_at : s.stream.At s.pos

/-- The tokens of the source are those found and those of the text from the piece on. -/
structure Stands (source : String) (before sofar : List Char) (s : Scanner) : Prop
    extends Placed source before sofar s where
  awaited : s.found ++ Token.place (byteSize before) (Piece.split (sofar ++ s.stream.unread)) =
    lex source

section Cursors

variable {source : String} {before sofar : List Char} {s : Scanner}

@[simp] lemma unread_look (s : Scanner) : s.look.stream.unread = s.stream.unread :=
  CharStream.unread_look s.stream

lemma Placed.look (h : Placed source before sofar s) : Placed source before sofar s.look where
  source_eq := h.source_eq
  text_eq := by rw [h.text_eq, unread_look]
  pos_eq := h.pos_eq
  stream_at := h.stream_at.look

lemma Stands.look (h : Stands source before sofar s) : Stands source before sofar s.look where
  toPlaced := h.toPlaced.look
  awaited := by
    rw [unread_look]
    exact h.awaited

lemma Stands.withTask (h : Stands source before sofar s) (task : ScanTask) :
    Stands source before sofar { s with task } :=
  ⟨⟨h.source_eq, h.text_eq, h.pos_eq, h.stream_at⟩, h.awaited⟩

lemma Placed.peek_eq (h : Placed source before sofar s) : s.peek = s.stream.unread.head? := by
  rw [peek, Scanner.look, h.stream_at.held?_look]
  cases s.stream.unread.head? <;> rfl

/-- A text that was taken as a part of the piece is cut out whole. -/
lemma Placed.cut?_eq {skipped text : List Char} (h : Placed source before (skipped ++ text) s) :
    s.cut? (byteSize before + byteSize skipped) = some (String.ofList text) := by
  rw [cut?, h.source_eq]
  apply Span.Covers.slice?_eq
  refine ⟨before ++ skipped, s.stream.unread, by simp [h.text_eq], ?_⟩
  simp only [h.pos_eq, byteSize_append, Nat.add_assoc]

lemma Placed.cut?_whole (h : Placed source before sofar s) :
    s.cut? (byteSize before) = some (String.ofList sofar) := by
  have hall : Placed source before ([] ++ sofar) s := h
  simpa using hall.cut?_eq

/-- Behind its own offset the scanner has what the stream has left. -/
lemma Placed.slice?_eq (h : Placed source before sofar s) :
    (Span.mk s.pos source.utf8ByteSize).slice? source = some (String.ofList s.stream.unread) := by
  apply Span.Covers.slice?_eq
  refine ⟨before ++ sofar, [], by simp [h.text_eq], ?_⟩
  rw [← byteSize_toList, h.text_eq, h.pos_eq]
  simp only [byteSize_append]

lemma Placed.peekNext?_eq (h : Placed source before sofar s) :
    s.peekNext? = some s.stream.unread[1]? := by
  rw [peekNext?, h.source_eq, h.slice?_eq]
  simp

/-- Taking a character moves both cursors over it. -/
lemma Stands.advance {c : Char} {cs : List Char} (h : Stands source before sofar s)
    (hunread : s.stream.unread = c :: cs) : ∃ next, s.look.advance = (some c, next) ∧
      next.stream.unread = cs ∧ next.task = s.task ∧ Stands source before (sofar ++ [c]) next := by
  obtain ⟨stream, htake, hrest, hat⟩ := h.stream_at.take_look hunread
  refine ⟨{ s with stream, pos := s.pos + c.utf8Size }, ?_, hrest, rfl, ?_⟩
  · simp only [Scanner.advance, Scanner.look, htake]
  · constructor
    case toPlaced =>
      refine ⟨h.source_eq, ?_, ?_, hat⟩
      · simp [h.text_eq, hunread, hrest]
      · simp [h.pos_eq, Nat.add_assoc]
    case awaited =>
      have hawaited := h.awaited
      rw [hunread] at hawaited
      simpa [hrest] using hawaited

/-- At the end nothing is taken, and both cursors stay. -/
lemma Stands.advance_nil (h : Stands source before sofar s) (hunread : s.stream.unread = []) :
    ∃ next, s.look.advance = (none, next) ∧ next.stream.unread = [] ∧
      Stands source before sofar next := by
  obtain ⟨stream, htake, hrest, hat⟩ := h.stream_at.take_look_nil hunread
  refine ⟨{ s with stream }, ?_, hrest, ?_⟩
  · simp only [Scanner.advance, Scanner.look, htake]
  · refine ⟨⟨h.source_eq, ?_, h.pos_eq, hat⟩, ?_⟩
    · simp [h.text_eq, hunread, hrest]
    · have hawaited := h.awaited
      rw [hunread] at hawaited
      rw [hrest]
      exact hawaited

/-- A piece that is complete becomes a token. -/
lemma Stands.push {kind : TokenKind} (h : Stands source before sofar s)
    (hpiece : Piece.split (sofar ++ s.stream.unread) =
      ⟨sofar, some kind⟩ :: Piece.split s.stream.unread) :
    Stands source (before ++ sofar) [] (s.push kind (byteSize before)) where
  source_eq := h.source_eq
  text_eq := by simp [h.text_eq, Scanner.push]
  pos_eq := by simp [h.pos_eq, Scanner.push]
  stream_at := h.stream_at
  awaited := by
    rw [← h.awaited, hpiece, Token.place_token rfl]
    simp [Scanner.push, h.pos_eq]

/-- A piece that is no token leaves nothing behind. -/
lemma Stands.skip (h : Stands source before sofar s)
    (hpiece : Piece.split (sofar ++ s.stream.unread) =
      ⟨sofar, none⟩ :: Piece.split s.stream.unread) : Stands source (before ++ sofar) [] s where
  source_eq := h.source_eq
  text_eq := by simp [h.text_eq]
  pos_eq := by simp [h.pos_eq]
  stream_at := h.stream_at
  awaited := by
    rw [← h.awaited, hpiece, Token.place_gap rfl]
    simp

end Cursors

/-- The invariant of a scan, task by task: what was taken of the piece is such that the piece
ends where the task ends. -/
inductive Sound (source : String) (s : Scanner) : Prop
  | between {before : List Char} : s.task = .between → Stands source before [] s →
      Sound source s
  /-- What was taken is a part of the word that the whole text begins with. -/
  | word {before more : List Char} {c : Char} : s.task = .word (byteSize before) →
      Stands source before (c :: more) s → Word.starts c = true →
      Word.split (more ++ s.stream.unread) =
        (more ++ (Word.split s.stream.unread).1, (Word.split s.stream.unread).2) →
      Sound source s
  | numeral {before more : List Char} {c : Char} {dotted : Bool} :
      s.task = .numeral (byteSize before) dotted → Stands source before (c :: more) s →
      c.isDigit = true → Numeral.Tail more → more.contains '.' = dotted → Sound source s
  | quoted {before body : List Char} :
      s.task = .quoted (byteSize before) (byteSize before + byteSize ['\"']) →
      Stands source before (['\"'] ++ body) s → '\"' ∉ body → Sound source s
  | sign {before : List Char} {c : Char} {o : Operator} : s.task = .sign (byteSize before) o →
      Stands source before [c] s → o.chars = [c] → Sound source s
  | finished {before : List Char} : s.task = .finished → Placed source before [] s →
      s.stream.unread = [] → s.found = lex source → Sound source s

/-- What a step does to the characters that are left and to the task. -/
inductive Moves (s t : Scanner) : Prop
  | take (c : Char) : s.stream.unread = c :: t.stream.unread → t.task ≠ .finished → Moves s t
  | settle : t.stream.unread = s.stream.unread → s.task ≠ .between → t.task = .between →
      Moves s t
  | finish : s.stream.unread = [] → t.stream.unread = [] → s.task = .between →
      t.task = .finished → Moves s t

section Steps

variable {source : String} {before : List Char} {s : Scanner}

/-- A task that leaves the next character where it is ends with a token. -/
lemma Stands.settle {sofar : List Char} {kind : TokenKind} (h : Stands source before sofar s)
    (htask : s.task ≠ .between) (hpiece : Piece.split (sofar ++ s.stream.unread) =
      ⟨sofar, some kind⟩ :: Piece.split s.stream.unread) :
    Sound source (s.look.push kind (byteSize before)) ∧
      Moves s (s.look.push kind (byteSize before)) := by
  rw [← unread_look] at hpiece
  exact ⟨Sound.between rfl (h.look.push hpiece), Moves.settle (unread_look s) htask rfl⟩

/-- The first character of a piece settles it or opens a task. -/
lemma Stands.dispatch {c : Char} (h : Stands source before [c] s) (htask : s.task = .between) :
    Sound source (s.dispatch (byteSize before) c) ∧
      (s.dispatch (byteSize before) c).stream = s.stream ∧
      (s.dispatch (byteSize before) c).task ≠ .finished := by
  have hpiece : ∀ kind?, Piece.first c s.stream.unread = (⟨[c], kind?⟩, s.stream.unread) →
      Piece.split ([c] ++ s.stream.unread) = ⟨[c], kind?⟩ :: Piece.split s.stream.unread := by
    intro kind? hfirst
    rw [List.singleton_append, Piece.split_cons, hfirst]
  unfold Scanner.dispatch
  split
  · rename_i hline
    have hfirst := hpiece (some .newline) (by simp [Piece.first, hline])
    exact ⟨Sound.between rfl (h.push hfirst), rfl, by simp [Scanner.push]⟩
  split
  · rename_i hline hblank
    have hfirst := hpiece none (by simp [Piece.first, hline, hblank])
    exact ⟨Sound.between htask (h.skip hfirst), rfl, by simp [htask]⟩
  split
  · rename_i hline hblank hquote
    subst hquote
    refine ⟨Sound.quoted ?_ (h.withTask _) (by simp), rfl, by simp⟩
    rw [h.pos_eq]
  split
  · rename_i hdigit
    exact ⟨Sound.numeral rfl (h.withTask _) hdigit (Numeral.Tail.whole rfl) rfl, rfl, by simp⟩
  split
  · rename_i hstarts
    exact ⟨Sound.word rfl (h.withTask _) hstarts rfl, rfl, by simp⟩
  rename_i hline hblank hquote hdigit hstarts
  split
  · rename_i o ho
    exact ⟨Sound.sign rfl (h.withTask _) (Operator.chars_of_ofChar? ho), rfl, by simp⟩
  · rename_i d ho hd
    have hfirst := hpiece (some (.delimiter d))
      (by simp [Piece.first, hline, hblank, hquote, hdigit, hstarts, ho, hd])
    exact ⟨Sound.between rfl (h.push hfirst), rfl, by simp [Scanner.push]⟩
  · rename_i ho hd
    have hfirst := hpiece none
      (by simp [Piece.first, hline, hblank, hquote, hdigit, hstarts, ho, hd])
    exact ⟨Sound.between htask (h.skip hfirst), rfl, by simp [htask]⟩

lemma step_between (h : Stands source before [] s) (htask : s.task = .between) :
    ∃ t, s.step = some t ∧ Sound source t ∧ Moves s t := by
  have hpos : s.pos = byteSize before := by simp [h.pos_eq]
  have hlook := h.look
  simp only [step, htask, scanPiece, hlook.peek_eq, unread_look]
  cases hunread : s.stream.unread with
  | nil =>
    have hnil : s.look.stream.unread = [] := by rw [unread_look, hunread]
    have hplaced : Placed source before [] { s.look.push .eof s.pos with task := .finished } :=
      ⟨hlook.source_eq, hlook.text_eq, hlook.pos_eq, hlook.stream_at⟩
    refine ⟨_, rfl, Sound.finished rfl hplaced hnil ?_, Moves.finish hunread hnil htask rfl⟩
    have hawaited := hlook.awaited
    rw [hnil, List.append_nil, Piece.split_nil, ← hpos] at hawaited
    exact hawaited
  | cons c cs =>
    obtain ⟨next, hnext, hrest, hkeep, hstands⟩ := h.advance hunread
    obtain ⟨hsound, hstream, hopen⟩ := hstands.dispatch (hkeep.trans htask)
    refine ⟨next.dispatch (byteSize before) c, ?_, hsound, Moves.take c ?_ hopen⟩
    · simp only [List.head?_cons, hnext]
      rw [← hpos]
      rfl
    · rw [hunread, hstream, hrest]

/-- The test that the loop over a word makes. -/
lemma Placed.scanWord_eq {sofar : List Char} (h : Placed source before sofar s) (start : Nat) :
    s.scanWord start =
      if Word.goesOn s.stream.unread then some s.advance.2 else s.endWord start := by
  simp only [scanWord, h.peek_eq, h.peekNext?_eq]
  cases s.stream.unread with
  | nil => rfl
  | cons c cs =>
    by_cases hc : Word.continues c = true
    · simp [Word.goesOn, hc]
    · by_cases hdot : c = '.'
      · subst hdot
        cases cs <;> simp [Word.goesOn]
      · simp [Word.goesOn, hc, hdot]

lemma step_word {more : List Char} {c : Char} (htask : s.task = .word (byteSize before))
    (h : Stands source before (c :: more) s) (hc : Word.starts c = true)
    (hsplit : Word.split (more ++ s.stream.unread) =
      (more ++ (Word.split s.stream.unread).1, (Word.split s.stream.unread).2)) :
    ∃ t, s.step = some t ∧ Sound source t ∧ Moves s t := by
  have hlook := h.look
  simp only [step, htask, hlook.scanWord_eq, unread_look]
  by_cases hgoes : Word.goesOn s.stream.unread = true
  · obtain ⟨d, ds, hunread⟩ : ∃ d ds, s.stream.unread = d :: ds := by
      apply List.exists_cons_of_ne_nil
      intro hnil
      simp [hnil] at hgoes
    obtain ⟨next, hnext, hrest, hkeep, hstands⟩ := h.advance hunread
    refine ⟨next, by rw [if_pos hgoes, hnext], ?_, Moves.take d (by rw [hunread, hrest]) ?_⟩
    · rw [List.cons_append] at hstands
      refine Sound.word (hkeep.trans htask) hstands hc ?_
      rw [hunread] at hgoes hsplit
      rw [hrest, List.append_assoc, List.singleton_append, hsplit, Word.split_of_goesOn hgoes]
      simp
    · simp [hkeep, htask]
  · rw [Bool.not_eq_true] at hgoes
    rw [Word.split_of_goesOn_eq_false hgoes, List.append_nil] at hsplit
    refine ⟨s.look.push (.ofWord (String.ofList (c :: more))) (byteSize before), ?_,
      h.settle (by simp [htask]) ?_⟩
    · simp only [hgoes, Bool.false_eq_true, if_false, endWord, hlook.cut?_whole]
      rfl
    · rw [List.cons_append, Piece.split_cons, Piece.first_word hc, Piece.ofWord_of_split hsplit]

lemma step_numeral {more : List Char} {c : Char} {dotted : Bool}
    (htask : s.task = .numeral (byteSize before) dotted)
    (h : Stands source before (c :: more) s) (hc : c.isDigit = true) (hmore : Numeral.Tail more)
    (hdotted : more.contains '.' = dotted) :
    ∃ t, s.step = some t ∧ Sound source t ∧ Moves s t := by
  have hlook := h.look
  have hdot : '.'.isDigit = false := by decide
  have hend : Numeral.goesOn (c :: more) s.stream.unread = false →
      ∃ t, s.look.endNumeral (byteSize before) = some t ∧ Sound source t ∧ Moves s t := by
    intro hgoes
    refine ⟨s.look.push (.number (String.ofList (c :: more))) (byteSize before), ?_,
      h.settle (by simp [htask]) ?_⟩
    · simp only [endNumeral, hlook.cut?_whole]
      rfl
    · rw [List.cons_append, Piece.split_cons, Piece.first_digit hc, Piece.ofDigit,
        Numeral.split_append_of_tail hc hmore hgoes]
  have hne : c ≠ '.' := by
    rintro rfl
    simp [hdot] at hc
  simp only [step, htask, scanNumeral, hlook.peek_eq, unread_look]
  cases hunread : s.stream.unread with
  | nil => exact hend (by simp [hunread])
  | cons d ds =>
    obtain ⟨next, hnext, hrest, hkeep, hstands⟩ := h.advance hunread
    rw [List.cons_append] at hstands
    have hmoves : Moves s next :=
      Moves.take d (by rw [hunread, hrest]) (by simp [hkeep, htask])
    simp only [List.head?_cons]
    by_cases hd : d.isDigit = true
    · refine ⟨next, by rw [if_pos hd, hnext], ?_, hmoves⟩
      refine Sound.numeral (hkeep.trans htask) hstands hc (hmore.digit hd) ?_
      have hdigit : '.' ≠ d := by
        rintro rfl
        simp [hdot] at hd
      simpa [hdigit] using hdotted
    · by_cases hopen : d = '.' ∧ dotted = false
      · obtain ⟨rfl, rfl⟩ := hopen
        refine ⟨{ next with task := .numeral (byteSize before) true }, ?_, ?_, ?_⟩
        · rw [if_neg hd, if_pos ⟨rfl, rfl⟩, hnext]
        · exact Sound.numeral rfl (hstands.withTask _) hc (hmore.dot hdotted) (by simp)
        · exact Moves.take '.' (by rw [hunread, hrest]) (by simp)
      · rw [if_neg hd, if_neg hopen]
        apply hend
        have hstop : d = '.' → '.' ∈ more := by simpa [← hdotted] using hopen
        simpa [hunread, Numeral.goesOn, hd, hne.symm] using hstop

lemma step_quoted {body : List Char}
    (htask : s.task = .quoted (byteSize before) (byteSize before + byteSize ['\"']))
    (h : Stands source before (['\"'] ++ body) s) (hbody : '\"' ∉ body) :
    ∃ t, s.step = some t ∧ Sound source t ∧ Moves s t := by
  have hlook := h.look
  have hcut := hlook.toPlaced.cut?_eq
  simp only [step, htask, scanString, hlook.peek_eq, unread_look]
  cases hunread : s.stream.unread with
  | nil =>
    obtain ⟨next, hnext, hrest, hstands⟩ := h.advance_nil hunread
    refine ⟨next.push (.string (String.ofList body)) (byteSize before), ?_,
      Sound.between rfl (hstands.push ?_), Moves.settle ?_ (by simp [htask]) rfl⟩
    · simp only [List.head?_nil, endString, hcut, hnext]
      rfl
    · rw [hrest, List.append_nil, List.singleton_append, Piece.split_cons, Piece.first_quote,
        Piece.ofQuote_unclosed hbody]
    · rw [hunread]
      exact hrest
  | cons d ds =>
    obtain ⟨next, hnext, hrest, hkeep, hstands⟩ := h.advance hunread
    have htake : s.stream.unread = d :: next.stream.unread := by rw [hunread, hrest]
    simp only [List.head?_cons]
    by_cases hd : d = '\"'
    · subst hd
      refine ⟨next.push (.string (String.ofList body)) (byteSize before), ?_,
        Sound.between rfl (hstands.push ?_), Moves.take _ htake (by simp [Scanner.push])⟩
      · simp only [if_true, endString, hcut, hnext]
        rfl
      · rw [hrest, List.append_assoc, List.append_assoc, List.singleton_append,
          List.singleton_append, Piece.split_cons, Piece.first_quote, Piece.ofQuote_closed hbody]
        rfl
    · refine ⟨next, by rw [if_neg hd, hnext], ?_, Moves.take d htake (by simp [hkeep, htask])⟩
      rw [List.append_assoc] at hstands
      refine Sound.quoted (hkeep.trans htask) hstands ?_
      have hne : '\"' ≠ d := fun heq => hd heq.symm
      simp [hbody, hne]

lemma step_sign {c : Char} {o : Operator} (htask : s.task = .sign (byteSize before) o)
    (h : Stands source before [c] s) (ho : o.chars = [c]) :
    ∃ t, s.step = some t ∧ Sound source t ∧ Moves s t := by
  have hlook := h.look
  simp only [step, htask, scanSign, hlook.peek_eq, unread_look]
  cases hextend : s.stream.unread.head?.bind o.extend? with
  | none =>
    refine ⟨_, rfl, h.settle (by simp [htask]) ?_⟩
    have hstop : s.stream.unread.head?.any (fun d => (o.extend? d).isSome) = false := by
      cases hhead : s.stream.unread.head? with
      | none => rfl
      | some d => simpa [hhead] using hextend
    have hfirst := Piece.first_of_operator ho hstop
    rw [List.nil_append] at hfirst
    rw [List.singleton_append, Piece.split_cons, hfirst, ho]
  | some p =>
    obtain ⟨d, hhead, hp⟩ := Option.bind_eq_some_iff.mp hextend
    obtain ⟨ds, hunread⟩ := List.head?_eq_some_iff.mp hhead
    obtain ⟨next, hnext, hrest, hkeep, hstands⟩ := h.advance hunread
    have htake : s.stream.unread = d :: next.stream.unread := by rw [hunread, hrest]
    refine ⟨next.push (.operator p) (byteSize before), by simp only [hnext],
      Sound.between rfl (hstands.push ?_), Moves.take d htake (by simp [Scanner.push])⟩
    rw [hrest, List.append_assoc, List.singleton_append, List.singleton_append,
      Piece.split_cons, Piece.first_operator ho, Piece.ofOperator]
    simp only [hp]
    rfl

/-- Every step of a sound scanner succeeds and leaves it sound. -/
theorem Sound.exists_step (h : Sound source s) (hopen : s.task ≠ .finished) :
    ∃ t, s.step = some t ∧ Sound source t ∧ Moves s t := by
  cases h with
  | between htask hstands => exact step_between hstands htask
  | word htask hstands hc hsplit => exact step_word htask hstands hc hsplit
  | numeral htask hstands hc hmore hdotted => exact step_numeral htask hstands hc hmore hdotted
  | quoted htask hstands hbody => exact step_quoted htask hstands hbody
  | sign htask hstands ho => exact step_sign htask hstands ho
  | finished htask => exact absurd htask hopen

/-- A look changes nothing that the invariant speaks of. -/
lemma Sound.look (h : Sound source s) : Sound source s.look := by
  cases h with
  | between htask hstands => exact Sound.between htask hstands.look
  | word htask hstands hc hsplit =>
    exact Sound.word htask hstands.look hc (by rw [unread_look, hsplit])
  | numeral htask hstands hc hmore hdotted =>
    exact Sound.numeral htask hstands.look hc hmore hdotted
  | quoted htask hstands hbody => exact Sound.quoted htask hstands.look hbody
  | sign htask hstands ho => exact Sound.sign htask hstands.look ho
  | finished htask hplaced hunread hfound =>
    exact Sound.finished htask hplaced.look (by rw [unread_look, hunread]) hfound

lemma Sound.ofSource (source : String) : Sound source (ofSource source) := by
  have hplaced : Placed source [] [] (Scanner.ofSource source) := ⟨rfl, rfl, rfl, rfl⟩
  refine Sound.between rfl ⟨hplaced, ?_⟩
  rw [lex_eq_place]
  rfl

lemma Sound.of_step {t : Scanner} (h : Sound source s) (hstep : s.step = some t) :
    Sound source t ∧ ∃ used, s.stream.unread = used ++ t.stream.unread := by
  by_cases hopen : s.task = .finished
  · rw [step, hopen] at hstep
    cases hstep
    exact ⟨h, [], rfl⟩
  · obtain ⟨t', hstep', hsound, hmoves⟩ := h.exists_step hopen
    rw [hstep] at hstep'
    cases hstep'
    refine ⟨hsound, ?_⟩
    cases hmoves with
    | take c hunread => exact ⟨[c], hunread⟩
    | settle hunread => exact ⟨[], hunread.symm⟩
    | finish hs ht => exact ⟨[], by rw [hs, ht]; rfl⟩

/-- All points of a scan are sound. -/
theorem Reached.sound (h : Reached source s) : Sound source s := by
  induction h with
  | start => exact Sound.ofSource source
  | look _ ih => exact ih.look
  | step _ hstep ih => exact (ih.of_step hstep).1

end Steps

end Scanner

end Scaffold
