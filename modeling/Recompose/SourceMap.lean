import Recompose.Span

/-!
# Source maps

Edited text is a sequence of pieces: text kept from the input, inserted
text, and text that stands in for a range of the input. A source map sends
offsets of the edited text back: kept text maps offset for offset,
inserted text maps nowhere, and a replacement maps to the start of the range
it replaced, unless both have the same size.
-/

namespace Recompose

inductive Piece where
  /-- Text copied from the input, where it starts at `start`. -/
  | kept (text : List Char) (start : Nat)
  /-- Text with no counterpart in the input. -/
  | inserted (text : List Char)
  /-- Text that stands in for the input under `span`. -/
  | replaced (text : List Char) (span : Span)

def Piece.text : Piece → List Char
  | .kept t _ | .inserted t | .replaced t _ => t

/-- A stretch of edited text and the input it stands for. -/
structure Stretch where
  generated : Span
  source : Span
deriving DecidableEq, Repr

/-- The mapped stretches, in the order of the edited text. -/
structure SourceMap where
  stretches : List Stretch
deriving Repr

namespace SourceMap

/-- The stretches of pieces written from `offset` on; empty text has none. -/
def stretchesFrom (offset : Nat) : List Piece → List Stretch
  | [] => []
  | p :: ps =>
    let stop := offset + byteSize p.text
    let rest := stretchesFrom stop ps
    if p.text.isEmpty then rest
    else match p with
      | .kept t start => ⟨⟨offset, stop⟩, ⟨start, start + byteSize t⟩⟩ :: rest
      | .inserted _ => rest
      | .replaced _ span => ⟨⟨offset, stop⟩, span⟩ :: rest

def ofPieces (pieces : List Piece) : SourceMap := ⟨stretchesFrom 0 pieces⟩

/-- Bisects the stretches from `lo` up to `hi` for the last one that starts at or
in front of an offset. It is the one at `lo` if all others start behind it. -/
def bisect (stretches : List Stretch) (offset lo hi : Nat) : Nat :=
  if lo + 1 < hi then
    let mid := (lo + hi) / 2
    if stretches[mid]?.any (·.generated.start ≤ offset) then bisect stretches offset mid hi
    else bisect stretches offset lo mid
  else lo
  termination_by hi - lo

/-- The stretch of an offset. The stretches are in order, but there may be gaps
between them. -/
def stretchAt? (m : SourceMap) (offset : Nat) : Option Stretch :=
  m.stretches[bisect m.stretches offset 0 m.stretches.length]?.filter fun s =>
    s.generated.start ≤ offset && offset < s.generated.stop

/-- The input offset that an offset of the edited text comes from. -/
def inputPosition? (m : SourceMap) (offset : Nat) : Option Nat :=
  (m.stretchAt? offset).map fun s =>
    if s.generated.length = s.source.length then
      s.source.start + (offset - s.generated.start)
    else s.source.start

/-- The input span of a span of the edited text, when its first and last
bytes both map. -/
def inputSpan? (m : SourceMap) (span : Span) : Option Span := do
  let start ← m.inputPosition? span.start
  if span.isEmpty then
    return Span.point start
  let last ← m.inputPosition? (span.stop - 1)
  return ⟨start, max (last + 1) start⟩

end SourceMap

end Recompose
