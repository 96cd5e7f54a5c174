import Scaffold.Proofs.Placement

/-!
# Scanning with two cursors

A source can be scanned character by character. The scanner takes characters from a stream
that knows their offsets and can hold one of them back after a look at it. Beside the
stream it keeps an offset of its own, and it cuts texts out of the source by such offsets.
A cut that does not lie on boundaries fails, and the scan with it. One step of the scan
looks at the next character and takes at most this one, so the points between two steps
include those inside of words, numerals and strings.
-/
namespace Scaffold

instance (s : Span) (source : String) : Decidable (s.OnBoundaries source) :=
  inferInstanceAs (Decidable (_ ∧ _))

/-- The text between two offsets, if they are in order and lie on boundaries. -/
def Span.slice? (s : Span) (source : String) : Option String :=
  if s.start ≤ s.stop ∧ s.OnBoundaries source then some (s.slice source) else none

lemma Span.Covers.slice?_eq {s : Span} {source : String} {text : List Char}
    (h : s.Covers source.toList text) : s.slice? source = some (String.ofList text) := by
  have hordered : s.start ≤ s.stop := by
    obtain ⟨before, after, -, rfl⟩ := h
    exact Nat.le_add_right _ _
  rw [slice?, if_pos ⟨hordered, h.onBoundaries⟩, h.slice_eq]

/-- Characters with their offsets, to be taken one by one. -/
structure CharStream where
  /-- The item that was looked at and not taken yet, or that there was none. -/
  held? : Option (Option (Nat × Char))
  offset : Nat
  rest : List Char
  deriving DecidableEq, Repr

namespace CharStream

def ofString (source : String) : CharStream := ⟨none, 0, source.toList⟩

/-- The next item, past the one that is held. -/
def pull (st : CharStream) : Option (Nat × Char) × CharStream :=
  match st.rest with
  | [] => (none, st)
  | c :: cs => (some (st.offset, c), { st with offset := st.offset + c.utf8Size, rest := cs })

/-- Holds the next item, unless one is held already. -/
def look (st : CharStream) : CharStream :=
  match st.held? with
  | some _ => st
  | none => { st.pull.2 with held? := some st.pull.1 }

def take (st : CharStream) : Option (Nat × Char) × CharStream :=
  match st.held? with
  | some item? => (item?, { st with held? := none })
  | none => st.pull

/-- The characters that were not taken yet, the one that is held included. -/
def unread (st : CharStream) : List Char :=
  match st.held? with
  | some (some (_, c)) => c :: st.rest
  | _ => st.rest

/-- The stream gives its characters the offsets from the given one on. -/
def At (st : CharStream) (pos : Nat) : Prop :=
  match st.held? with
  | none => st.offset = pos
  | some none => st.offset = pos ∧ st.rest = []
  | some (some (offset, c)) => offset = pos ∧ st.offset = pos + c.utf8Size

variable {st : CharStream} {pos : Nat}

@[simp] lemma unread_look (st : CharStream) : st.look.unread = st.unread := by
  obtain ⟨_ | item?, offset, _ | ⟨c, cs⟩⟩ := st <;> rfl

lemma At.look (h : st.At pos) : st.look.At pos := by
  obtain ⟨_ | item?, offset, _ | ⟨c, cs⟩⟩ := st
  · exact ⟨h, rfl⟩
  · exact ⟨h, congrArg (· + c.utf8Size) h⟩
  · exact h
  · exact h

/-- A look finds the first unread character, at the given offset. -/
lemma At.held?_look (h : st.At pos) :
    st.look.held? = some (st.unread.head?.map fun c => (pos, c)) := by
  obtain ⟨_ | _ | ⟨offset, d⟩, next, _ | ⟨c, cs⟩⟩ := st
  · rfl
  · obtain rfl : next = pos := h
    rfl
  · rfl
  · obtain ⟨-, hrest⟩ := h
    cases hrest
  · obtain ⟨rfl, -⟩ := h
    rfl
  · obtain ⟨rfl, -⟩ := h
    rfl

/-- After a look, the first unread character is taken and the others are left. -/
lemma At.take_look {c : Char} {cs : List Char} (h : st.At pos) (hunread : st.unread = c :: cs) :
    ∃ next, st.look.take = (some (pos, c), next) ∧ next.unread = cs ∧
      next.At (pos + c.utf8Size) := by
  obtain ⟨_ | _ | ⟨offset, d⟩, next, rest⟩ := st
  · obtain rfl : next = pos := h
    obtain rfl : rest = c :: cs := hunread
    exact ⟨⟨none, next + c.utf8Size, cs⟩, rfl, rfl, rfl⟩
  · obtain ⟨-, hnil⟩ := h
    rw [show rest = c :: cs from hunread] at hnil
    cases hnil
  · obtain ⟨rfl, hnext⟩ := h
    obtain ⟨rfl, rfl⟩ := List.cons.inj hunread
    exact ⟨⟨none, next, rest⟩, rfl, rfl, hnext⟩

/-- At the end nothing is taken. -/
lemma At.take_look_nil (h : st.At pos) (hunread : st.unread = []) :
    ∃ next, st.look.take = (none, next) ∧ next.unread = [] ∧ next.At pos := by
  obtain ⟨_ | _ | ⟨offset, d⟩, next, rest⟩ := st
  · obtain rfl : next = pos := h
    obtain rfl : rest = [] := hunread
    exact ⟨⟨none, next, []⟩, rfl, rfl, rfl⟩
  · obtain ⟨rfl, rfl⟩ := h
    exact ⟨⟨none, next, []⟩, rfl, rfl, rfl⟩
  · cases hunread

end CharStream

/-- What a scanner is in the middle of, with the offsets it has noted. -/
inductive ScanTask
  | between
  | word (start : Nat)
  | numeral (start : Nat) (dotted : Bool)
  | quoted (start content : Nat)
  | sign (start : Nat) (o : Operator)
  | finished
  deriving DecidableEq, Repr

/-- The offsets that texts are cut from when the task is done. -/
def ScanTask.cuts : ScanTask → List Nat
  | word start => [start]
  | numeral start _ => [start]
  | quoted _ content => [content]
  | _ => []

structure Scanner where
  source : String
  stream : CharStream
  pos : Nat
  found : List Token
  task : ScanTask
  deriving DecidableEq, Repr

namespace Scanner

def ofSource (source : String) : Scanner := ⟨source, .ofString source, 0, [], .between⟩

def look (s : Scanner) : Scanner := { s with stream := s.stream.look }

/-- The next character. -/
def peek (s : Scanner) : Option Char := s.look.stream.held?.join.map Prod.snd

/-- The character behind the next one, read off the source at the scanner's own offset. -/
def peekNext? (s : Scanner) : Option (Option Char) :=
  ((Span.mk s.pos s.source.utf8ByteSize).slice? s.source).map (·.toList[1]?)

def advance (s : Scanner) : Option Char × Scanner :=
  match s.stream.take with
  | (none, stream) => (none, { s with stream })
  | (some (offset, c), stream) => (some c, { s with stream, pos := offset + c.utf8Size })

/-- The source from an offset to the position of the scanner. -/
def cut? (start : Nat) (s : Scanner) : Option String := (Span.mk start s.pos).slice? s.source

def push (kind : TokenKind) (start : Nat) (s : Scanner) : Scanner :=
  { s with found := s.found ++ [⟨kind, ⟨start, s.pos⟩⟩], task := .between }

/-- What follows from the first character of a piece, which has just been taken. -/
def dispatch (start : Nat) (c : Char) (s : Scanner) : Scanner :=
  if c = '\n' then s.push .newline start
  else if Text.isBlank c then s
  else if c = '\"' then { s with task := .quoted start s.pos }
  else if c.isDigit then { s with task := .numeral start false }
  else if Word.starts c then { s with task := .word start }
  else match Operator.ofChar? c, Delimiter.ofChar? c with
    | some o, _ => { s with task := .sign start o }
    | none, some d => s.push (.delimiter d) start
    | none, none => s

/-- Between two pieces: the end token, or the first character of a piece. -/
def scanPiece (s : Scanner) : Scanner :=
  match s.peek with
  | none => { s.push .eof s.pos with task := .finished }
  | some _ => match s.advance with
    | (some c, next) => next.dispatch s.pos c
    | (none, next) => next

def endWord (start : Nat) (s : Scanner) : Option Scanner := do
  let text ← s.cut? start
  return s.push (.ofWord text) start

/-- A word goes on over a dot if the character behind it starts a word. -/
def scanWord (start : Nat) (s : Scanner) : Option Scanner :=
  match s.peek with
  | none => s.endWord start
  | some c =>
    if Word.continues c then some s.advance.2
    else if c = '.' then do
      let next ← s.peekNext?
      if next.any Word.starts then return s.advance.2 else s.endWord start
    else s.endWord start

def endNumeral (start : Nat) (s : Scanner) : Option Scanner := do
  let text ← s.cut? start
  return s.push (.number text) start

def scanNumeral (start : Nat) (dotted : Bool) (s : Scanner) : Option Scanner :=
  match s.peek with
  | none => s.endNumeral start
  | some c =>
    if c.isDigit then some s.advance.2
    else if c = '.' ∧ dotted = false then some { s.advance.2 with task := .numeral start true }
    else s.endNumeral start

/-- The closing quote is taken if it is there, and is no part of the text. -/
def endString (start content : Nat) (s : Scanner) : Option Scanner := do
  let text ← s.cut? content
  return s.advance.2.push (.string text) start

def scanString (start content : Nat) (s : Scanner) : Option Scanner :=
  match s.peek with
  | none => s.endString start content
  | some c => if c = '\"' then s.endString start content else some s.advance.2

def scanSign (start : Nat) (o : Operator) (s : Scanner) : Scanner :=
  match s.peek.bind o.extend? with
  | some p => s.advance.2.push (.operator p) start
  | none => s.push (.operator o) start

/-- One step: a look at the next character, and what the task makes of it. -/
def step (s : Scanner) : Option Scanner :=
  match s.task with
  | .between => some s.look.scanPiece
  | .word start => s.look.scanWord start
  | .numeral start dotted => s.look.scanNumeral start dotted
  | .quoted start content => s.look.scanString start content
  | .sign start o => some (s.look.scanSign start o)
  | .finished => some s

/-- All points of the scan of a source: where a step ends, and where a look has been made and
nothing was taken yet. -/
inductive Reached (source : String) : Scanner → Prop
  | start : Reached source (ofSource source)
  | look {s : Scanner} : Reached source s → Reached source s.look
  | step {s t : Scanner} : Reached source s → s.step = some t → Reached source t

end Scanner

end Scaffold
