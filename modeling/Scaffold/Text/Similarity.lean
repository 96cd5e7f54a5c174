/-!
# Similar words

Two words are compared by the characters they share in about the same places
and by how many of those are out of order: the mean of the three shares
`m / |a|`, `m / |b|` and `(m - t) / m`, for `m` shared characters of which `t`
pairs are transposed. Words are similar from seven tenths on.
-/
namespace Scaffold.Text

/-- Marks the first free place between `low` and `high` that holds the character. -/
def occupy (x : Char) (low high : Nat) : Nat → List (Char × Bool) → Option (List (Char × Bool))
  | _, [] => none
  | j, (c, used) :: rest =>
    if low ≤ j && j < high && c = x && !used then some ((c, true) :: rest)
    else (occupy x low high (j + 1) rest).map ((c, used) :: ·)

/-- The characters of the first word that find a place, in order, and the places taken. -/
def share (reach : Nat) :
    Nat → List Char → List (Char × Bool) → List Char × List (Char × Bool)
  | _, [], places => ([], places)
  | i, x :: xs, places =>
    match occupy x (i - reach) (i + reach + 1) 0 places with
    | none => share reach (i + 1) xs places
    | some taken =>
      let (shared, final) := share reach (i + 1) xs taken
      (x :: shared, final)

def similar (a b : List Char) : Bool :=
  let reach := max a.length b.length / 2 - 1
  let (shared, places) := share reach 0 a (b.map (·, false))
  let occupied := (places.filter (·.2)).map (·.1)
  let m := shared.length
  let t := (shared.zip occupied).countP (fun p => p.1 ≠ p.2) / 2
  m ≠ 0 && 21 * a.length * b.length * m ≤
    10 * (m * m * b.length + m * m * a.length + (m - t) * a.length * b.length)

end Scaffold.Text
