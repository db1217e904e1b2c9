/-!
# Spans

A span is a range of byte offsets, end exclusive, and a file span points with one into a file. Two
spans join to the smallest one that covers both.
-/

namespace SsaCompiler

/-- The number of a file. All identifiers are numbers without a bound; they are those that 32 bits keep
as long as there are fewer than `2 ^ 32` things of the kind. -/
structure FileId where
  index : Nat
deriving DecidableEq, Repr, Inhabited

/-- The byte offsets from `start` up to `stop`. -/
structure Span where
  start : Nat
  stop : Nat
deriving DecidableEq, Repr, Inhabited

namespace Span

def length (span : Span) : Nat := span.stop - span.start

def isEmpty (span : Span) : Bool := span.stop ≤ span.start

def join (a b : Span) : Span := ⟨min a.start b.start, max a.stop b.stop⟩

end Span

structure FileSpan where
  file : FileId
  span : Span
deriving DecidableEq, Repr, Inhabited

namespace FileSpan

def ofOffsets (file start stop : Nat) : FileSpan := ⟨⟨file⟩, ⟨start, stop⟩⟩

/-- The smallest span that covers both, in the file of the first. -/
def join (a b : FileSpan) : FileSpan := ⟨a.file, a.span.join b.span⟩

/-- The text `#file:start..stop`. -/
def render (location : FileSpan) : String :=
  s!"#{location.file.index}:{location.span.start}..{location.span.stop}"

end FileSpan

end SsaCompiler
