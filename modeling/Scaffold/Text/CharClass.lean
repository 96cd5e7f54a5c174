/-!
# Classes of characters

A class of characters is given by inclusive ranges of code points in increasing
order. The look-up stops at the first range that starts above the character.
Blanks are the characters with the Unicode property White_Space.
-/
namespace Scaffold.Text

/-- Inclusive code point ranges, in increasing order. -/
abbrev CharClass := List (Nat × Nat)

namespace CharClass

def hasCode (n : Nat) : CharClass → Bool
  | [] => false
  | (low, high) :: ranges => low ≤ n && (n ≤ high || hasCode n ranges)

def has (ranges : CharClass) (c : Char) : Bool := hasCode c.toNat ranges

@[simp] theorem hasCode_nil (n : Nat) : hasCode n [] = false := rfl

@[simp] theorem hasCode_cons (n low high : Nat) (ranges : CharClass) :
    hasCode n ((low, high) :: ranges) = (low ≤ n && (n ≤ high || hasCode n ranges)) := rfl

end CharClass

/-- The property White_Space: 25 code points. -/
def blanks : CharClass :=
  [(0x9, 0xd), (0x20, 0x20), (0x85, 0x85), (0xa0, 0xa0), (0x1680, 0x1680), (0x2000, 0x200a),
    (0x2028, 0x2029), (0x202f, 0x202f), (0x205f, 0x205f), (0x3000, 0x3000)]

def isBlank (c : Char) : Bool := blanks.has c

def trimRight (cs : List Char) : List Char := (cs.reverse.dropWhile isBlank).reverse

def trim (cs : List Char) : List Char := trimRight (cs.dropWhile isBlank)

end Scaffold.Text
