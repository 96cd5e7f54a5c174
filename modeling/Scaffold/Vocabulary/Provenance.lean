/-!
# Provenance of vocabulary entries

Every word and sign of the vocabulary records the language version that
introduced it and how settled it is.
-/
namespace Scaffold

structure Version where
  major : Nat
  minor : Nat
  deriving DecidableEq, Repr

def Version.text (v : Version) : String := toString v.major ++ "." ++ toString v.minor

inductive Stability
  | stable
  | draft
  | deprecated
  deriving DecidableEq, Repr

structure Provenance where
  since : Version
  stability : Stability
  deriving DecidableEq, Repr

/-- The provenance of everything that the first release already had. -/
def Provenance.initial : Provenance := ⟨⟨0, 1⟩, .stable⟩

end Scaffold
