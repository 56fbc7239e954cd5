/-!
# Spans

A span is a half-open range of byte offsets into the UTF-8 form of a source
text. Spans are plain data: nothing forces them to be ordered or to lie inside
a text, because trees can be built by hand with any span.
-/

namespace Rill

structure Span where
  start : Nat
  stop : Nat
  deriving DecidableEq, Repr, Inhabited

namespace Span

/-- The smallest span covering both. -/
def cover (a b : Span) : Span :=
  ⟨min a.start b.start, max a.stop b.stop⟩

@[simp] theorem cover_start (a b : Span) : (a.cover b).start = min a.start b.start := rfl

@[simp] theorem cover_stop (a b : Span) : (a.cover b).stop = max a.stop b.stop := rfl

theorem cover_comm (a b : Span) : a.cover b = b.cover a := by
  simp [cover, Nat.min_comm, Nat.max_comm]

theorem cover_assoc (a b c : Span) : (a.cover b).cover c = a.cover (b.cover c) := by
  simp [cover, Nat.min_assoc, Nat.max_assoc]

@[simp] theorem cover_self (a : Span) : a.cover a = a := by
  simp [cover]

end Span

end Rill
