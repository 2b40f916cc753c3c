/-! Stretches of a text, counted in the bytes of its UTF-8 form. A fault points at one. -/
namespace CommitPipeline.Text

/-- From the byte `start` up to the byte `stop`, which does not belong to it. -/
structure Span where
  start : Nat
  stop : Nat
  deriving DecidableEq

namespace Span

/-- The empty stretch at a place. -/
def point (place : Nat) : Span := ⟨place, place⟩

def before (s : Span) : Span := point s.start

def after (s : Span) : Span := point s.stop

/-- From the start of one stretch to the end of another. -/
def upTo (s t : Span) : Span := ⟨s.start, t.stop⟩

def size (s : Span) : Nat := s.stop - s.start

end Span

/-- Something that was read from a stretch of a text. -/
structure Placed (α : Type) where
  span : Span
  content : α

end CommitPipeline.Text
