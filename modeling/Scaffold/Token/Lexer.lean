import Scaffold.Token.Piece

/-!
# Reading a source text into tokens

The tokens of a text are its significant pieces with their byte offsets, and an
end token behind the last character. The loop that runs accumulates in an array;
`lex_eq_place` states it as the placement of the pieces.
-/
namespace Scaffold

def byteSize (cs : List Char) : Nat := cs.foldr (fun c size => c.utf8Size + size) 0

@[simp] theorem byteSize_nil : byteSize [] = 0 := rfl

@[simp] theorem byteSize_cons (c : Char) (cs : List Char) :
    byteSize (c :: cs) = c.utf8Size + byteSize cs := rfl

@[simp] theorem byteSize_append (cs ds : List Char) :
    byteSize (cs ++ ds) = byteSize cs + byteSize ds := by
  induction cs with
  | nil => simp
  | cons c cs ih => rw [List.cons_append, byteSize_cons, byteSize_cons, ih, Nat.add_assoc]

namespace Token

/-- Pieces laid out from an offset on, and the end token behind them. -/
def place (offset : Nat) : List Piece → List Token
  | [] => [⟨.eof, .point offset⟩]
  | p :: ps =>
    let stop := offset + byteSize p.text
    match p.kind? with
    | none => place stop ps
    | some kind => ⟨kind, ⟨offset, stop⟩⟩ :: place stop ps

/-- Cuts one piece after the other and keeps the significant ones. -/
def scan (found : Array Token) (offset : Nat) : List Char → Array Token
  | [] => found.push ⟨.eof, .point offset⟩
  | c :: cs =>
    let cut := Piece.first c cs
    let stop := offset + byteSize cut.1.text
    match cut.1.kind? with
    | none => scan found stop cut.2
    | some kind => scan (found.push ⟨kind, ⟨offset, stop⟩⟩) stop cut.2
termination_by cs => cs.length
decreasing_by
  all_goals
    have h := Piece.first_rest_length_le c cs
    simp only [List.length_cons]
    omega

theorem toList_scan (found : Array Token) (offset : Nat) (cs : List Char) :
    (scan found offset cs).toList = found.toList ++ place offset (Piece.split cs) := by
  fun_induction scan found offset cs with
  | case1 found offset => simp [place]
  | case2 found offset c cs cut stop hkind ih =>
    rw [ih, Piece.split_cons, place]
    simp only [cut, stop] at hkind ⊢
    rw [hkind]
  | case3 found offset c cs cut stop kind hkind ih =>
    rw [ih, Piece.split_cons, place]
    simp only [cut, stop] at hkind ⊢
    rw [hkind]
    simp

end Token

/-- The tokens of a source text. -/
def lex (source : String) : List Token := (Token.scan #[] 0 source.toList).toList

theorem lex_eq_place (source : String) :
    lex source = Token.place 0 (Piece.split source.toList) := by
  simp [lex, Token.toList_scan]

end Scaffold
