/-
  Sketchwork.Span — byte ranges into a document's text.

  A span is half open and never reversed; every operation keeps that, so it is part
  of the type. Offsets count UTF-8 bytes.
-/

namespace Sketchwork

structure Span where
  start : Nat
  stop : Nat
  ordered : start ≤ stop := by omega
  deriving DecidableEq, Repr

namespace Span

/-- The range between two offsets, whichever comes first. -/
def between (a b : Nat) : Span :=
  { start := min a b, stop := max a b }

/-- The empty range at an offset. -/
def point (at_ : Nat) : Span :=
  { start := at_, stop := at_ }

instance : Inhabited Span := ⟨point 0⟩

/-- The range of `width` bytes that begins at an offset. -/
def sized (at_ width : Nat) : Span :=
  { start := at_, stop := at_ + width }

/-- The smallest range that covers both. -/
def union (a b : Span) : Span :=
  { start := min a.start b.start
    stop := max a.stop b.stop
    ordered := by have := a.ordered; have := b.ordered; omega }

/-- The range moved `n` bytes to the right. -/
def shift (n : Nat) (s : Span) : Span :=
  { start := s.start + n, stop := s.stop + n, ordered := by have := s.ordered; omega }

end Span

/-- A value with the range of text it was read from. -/
structure Spanned (α : Type) where
  value : α
  span : Span
  deriving DecidableEq, Repr

namespace Spanned

def shift {α : Type} (n : Nat) (s : Spanned α) : Spanned α :=
  { s with span := s.span.shift n }

end Spanned

end Sketchwork
