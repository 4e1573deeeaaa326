set_option autoImplicit false

/-!
# Spans

Every token, tree node and error of the library sits at a *span* of the text it came from: a
half-open range of character offsets.  A character is a Unicode scalar value, so offsets count
neither bytes nor UTF-16 units.

Spans are joined by `Span.cover`, the smallest span that holds both, and moved by `Span.shift`.
The two commute, which is what lets a program be placed behind another one.
-/

namespace Scriptlet

/-- A half-open range of character offsets. -/
structure Span where
  start : Nat
  stop : Nat
  deriving DecidableEq, Repr, Inhabited

namespace Span

/-- The smallest span that holds both. -/
def cover (a b : Span) : Span := ⟨min a.start b.start, max a.stop b.stop⟩

/-- The span moved to the right. -/
def shift (distance : Nat) (a : Span) : Span := ⟨a.start + distance, a.stop + distance⟩

theorem cover_self (a : Span) : a.cover a = a := by
  simp [cover]

theorem shift_cover (n : Nat) (a b : Span) :
    (a.cover b).shift n = (a.shift n).cover (b.shift n) := by
  simp only [cover, shift, Span.mk.injEq]
  omega

end Span

end Scriptlet
