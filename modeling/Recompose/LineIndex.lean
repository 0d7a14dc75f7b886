import Recompose.Span

/-!
# Lines and columns

Turns byte offsets into zero-based lines and byte columns. A line starts at
the beginning of the text and after every line feed.
-/

namespace Recompose

/-- A zero-based line and byte column. -/
structure LineCol where
  line : Nat
  col : Nat
deriving DecidableEq, Repr

/-- The offsets at which lines start, ascending, and the size of the text. -/
structure LineIndex where
  starts : List Nat
  size : Nat
deriving Repr

namespace LineIndex

/-- Offsets just after the line feeds of a text that begins at `offset`. -/
def startsAfterFeeds (offset : Nat) : List Char → List Nat
  | [] => []
  | c :: cs =>
    let next := offset + c.utf8Size
    if c = '\n' then next :: startsAfterFeeds next cs else startsAfterFeeds next cs

def ofText (text : String) : LineIndex where
  starts := 0 :: startsAfterFeeds 0 text.toList
  size := byteSize text.toList

/-- Searches ascending offsets from the place `lo` up to `hi`: the place at which an
offset stands, or else the place at which it would have to be put in. -/
def search (starts : List Nat) (offset lo hi : Nat) : Except Nat Nat :=
  if lo < hi then
    let mid := (lo + hi) / 2
    let start := starts.getD mid 0
    if start = offset then .ok mid
    else if start < offset then search starts offset (mid + 1) hi
    else search starts offset lo mid
  else .error lo
  termination_by hi - lo

/-- The line of an offset: the one that starts there, or else the last one that
starts in front of it. -/
def lineAt (index : LineIndex) (offset : Nat) : Nat :=
  match search index.starts offset 0 index.starts.length with
  | .ok line => line
  | .error place => place - 1

/-- The position of an offset. Nothing past the end of the text. -/
def lineCol? (index : LineIndex) (offset : Nat) : Option LineCol :=
  if offset ≤ index.size then
    let line := index.lineAt offset
    some ⟨line, offset - index.starts.getD line 0⟩
  else none

end LineIndex

end Recompose
