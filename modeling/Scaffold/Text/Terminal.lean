/-!
# Terminal text

Text for a terminal holds control characters and control sequences besides what
it shows. Its plain form keeps what is shown. A sequence starts with an escape
character and ends by its own rules; an escape, cancel or substitute character
ends it in any case.
-/
namespace Scaffold.Text

/-- The control characters that lay text out: tab, newline, form feed, carriage return. -/
def isLayoutControl (c : Char) : Bool := c = '\t' || c = '\n' || c = '\x0c' || c = '\r'

/-- All but the control characters of ASCII is shown, and of those the ones for layout. -/
def isShown (c : Char) : Bool := isLayoutControl c || (' ' ≤ c && c ≠ '\x7f')

/-- What the characters read so far have opened. -/
inductive Sequence
  /-- An escape character alone. -/
  | escape
  /-- An escape sequence with intermediate characters, such as a choice of character set. -/
  | intermediate
  /-- A control sequence, such as a change of colour. -/
  | control
  /-- A command to the operating system, such as a window title. -/
  | command
  /-- A device control string before its parameters. -/
  | device
  /-- A device control string in its parameters. -/
  | deviceParameter
  /-- A device control string behind an intermediate character. -/
  | deviceIntermediate
  /-- The content of a control string. -/
  | string
  deriving DecidableEq, Repr

namespace Sequence

/-- The byte that ends a control string. -/
def terminator : UInt8 := 0x9c

/-- What is open after an escape character and one more. -/
def afterEscape (c : Char) : Option Sequence :=
  if ' ' ≤ c && c ≤ '/' then some intermediate
  else if c = '[' then some control
  else if c = ']' then some command
  else if c = 'P' then some device
  else if c = 'X' || c = '^' || c = '_' then some string
  else if '0' ≤ c && c ≤ '~' then none
  else some escape

/-- What is open after one more character of a device control string's head. -/
def afterDevice (s : Sequence) (c : Char) : Sequence :=
  if ' ' ≤ c && c ≤ '/' then deviceIntermediate
  else if '@' ≤ c && c ≤ '~' then string
  else if '0' ≤ c && c ≤ '?' then
    if s = device || s = deviceParameter && c ≤ ';' then deviceParameter else string
  else s

/-- What is open after one more character, which starts and cancels nothing. -/
def next (s : Sequence) (c : Char) : Option Sequence :=
  match s with
  | escape => afterEscape c
  | intermediate => if '0' ≤ c && c ≤ '~' then none else some s
  | control => if '@' ≤ c && c ≤ '~' then none else some s
  | command => if c = '\x07' then none else some s
  | device | deviceParameter | deviceIntermediate => some (s.afterDevice c)
  | string => if (String.utf8EncodeChar c).contains terminator then none else some s

/-- The sequences that a layout character interrupts. -/
def isInterruptible : Sequence → Bool
  | escape | intermediate | control => true
  | _ => false

end Sequence

/-- Where a reader of terminal text stands. -/
inductive Reader
  | text
  | inside (s : Sequence)
  /-- Shows text although a sequence is open, up to the next control character. -/
  | interrupted (s : Sequence)
  deriving DecidableEq, Repr

namespace Reader

/-- One more character of a sequence, and whether it is shown. -/
def proceed (s : Sequence) (c : Char) : Reader × Bool :=
  if s.isInterruptible && isLayoutControl c then (interrupted s, true)
  else match s.next c with
    | some open' => (inside open', false)
    | none => (text, false)

/-- One more character, and whether it is shown. What is not of ASCII ends an interrupted
sequence for good. -/
def step (r : Reader) (c : Char) : Reader × Bool :=
  if c = '\x1b' then (inside .escape, false)
  else if c = '\x18' || c = '\x1a' then (text, false)
  else match r with
    | text => (text, isShown c)
    | inside s => proceed s c
    | interrupted s =>
      if isShown c then (if c ≤ '\x7f' then interrupted s else text, true)
      else (inside s, false)

def shown (r : Reader) : List Char → List Char
  | [] => []
  | c :: cs =>
    let (after, isVisible) := r.step c
    if isVisible then c :: after.shown cs else after.shown cs

end Reader

/-- The characters of a terminal text that are shown. -/
def plain (cs : List Char) : List Char := Reader.text.shown cs

/-- A text with a graphic rendition for its length. -/
def render (rendition text : String) : String := "\x1b[" ++ rendition ++ "m" ++ text ++ "\x1b[0m"

def bold (text : String) : String := render "1" text

def red (text : String) : String := render "31" text

def yellow (text : String) : String := render "33" text

end Scaffold.Text
