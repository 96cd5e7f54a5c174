/-!
# Spans

A span is a pair of byte offsets into a source text, the second one exclusive.
Nothing forces the two to be in order.
-/
namespace Scaffold

structure Span where
  start : Nat
  stop : Nat
  deriving DecidableEq, Repr

namespace Span

/-- The smallest span with both starts and both stops inside. -/
def merge (a b : Span) : Span := ⟨min a.start b.start, max a.stop b.stop⟩

/-- The empty span at an offset. -/
def point (offset : Nat) : Span := ⟨offset, offset⟩

@[simp] theorem merge_start (a b : Span) : (a.merge b).start = min a.start b.start := rfl

@[simp] theorem merge_stop (a b : Span) : (a.merge b).stop = max a.stop b.stop := rfl

end Span

/-- A value with the span of source text that it came from. -/
structure Spanned (α : Type) where
  node : α
  span : Span
  deriving DecidableEq, Repr

end Scaffold
