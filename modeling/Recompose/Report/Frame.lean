import Recompose.LineIndex
import Recompose.Text.Layout
import Recompose.Text.Width

/-!
# Frames

A frame shows the lines of a source around a span, one line of context on
either side. A span inside a line is underlined; one over several lines is
marked by an arrow from its first line to its last.
-/

namespace Recompose.Frame

/-! ## Lines -/

structure Line where
  /-- Counted from one. -/
  number : Nat
  offset : Nat
  /-- Bytes, with the end of the line. -/
  size : Nat
  /-- Without the end of the line. -/
  text : List Char
deriving Repr

namespace Line

def stop (l : Line) : Nat := l.offset + l.size

end Line

def dropReturn (line : List Char) : List Char :=
  if line.getLast? = some '\r' then line.dropLast else line

/-- Numbered lines from a number and an offset on. What follows the last line
feed is a line unless it is empty. -/
def numberLines (number offset : Nat) : List (List Char) → List Line
  | [] => []
  | [line] => if line.isEmpty then [] else [⟨number, offset, byteSize line, line⟩]
  | line :: rest =>
    let size := byteSize line + 1
    ⟨number, offset, size, dropReturn line⟩ :: numberLines (number + 1) (offset + size) rest

def linesOf (source : String) : List Line := numberLines 1 0 (splitLines source.toList)

/-! ## Places of a span -/

/-- An empty span is looked for as one byte. -/
def reach (s : Span) : Nat := if s.isEmpty then s.start + 1 else s.stop

namespace Line

def hasStart (l : Line) (s : Span) : Bool := l.offset ≤ s.start && s.start < l.stop

def hasEnd (l : Line) (s : Span) : Bool := l.offset < reach s && reach s ≤ l.stop

/-- Whether a span starts before a line and ends after it. -/
def isInside (l : Line) (s : Span) : Bool := s.start < l.offset && l.stop < reach s

def shows (l : Line) (s : Span) : Bool := l.hasStart s || l.isInside s || l.hasEnd s

def holds (l : Line) (s : Span) : Bool := l.offset ≤ s.start && s.stop ≤ l.stop

/-- The column of an offset in a line; the end of the line is one column. -/
def column (l : Line) (offset : Nat) : Nat :=
  let inside := offset - l.offset
  if byteSize l.text < inside then textWidth l.text + 1
  else textWidth ((takeBytes? inside l.text).getD l.text)

end Line

/-- Whether the lines of a span are marked at their left. -/
def hasMargin (lines : List Line) (s : Span) : Bool :=
  lines.any fun l => !l.holds s && l.shows s && !(l.hasStart s && l.hasEnd s)

/-! ## Drawing -/

def spaces (n : Nat) : String := String.ofList (List.replicate n ' ')

def bars (n : Nat) : String := String.ofList (List.replicate n '─')

def numbered (width number : Nat) : String :=
  let digits := Nat.toDigits 10 number
  " " ++ spaces (width - digits.length) ++ String.ofList digits ++ " │ "

def unnumbered (width : Nat) : String := " " ++ spaces width ++ " · "

def marginOf (l : Line) (s : Span) : String :=
  if !(l.shows s && !(l.hasStart s && l.hasEnd s)) then "    "
  else if l.offset ≤ s.start then "╭─▶ "
  else if s.stop ≤ l.stop then "├─▶ "
  else "│   "

def underline (width : Nat) (l : Line) (s : Span) : List String :=
  let first := l.column s.start
  let last := if s.isEmpty then first + 1 else max (l.column s.stop) (first + 1)
  let middle := (first + last) / 2
  let mark := if s.isEmpty then "▲" else "┬"
  [unnumbered width ++ spaces first ++ bars (middle - first) ++ mark ++ bars (last - middle - 1),
   unnumbered width ++ spaces middle ++ "╰── here"]

def rows (width : Nat) (marked : Bool) (s : Span) (l : Line) : List String :=
  let text := String.ofList (expandTabs 0 l.text)
  let row := numbered width l.number ++ (if marked then marginOf l s else "") ++ text
  let below :=
    if !l.shows s then []
    else if l.holds s then underline width l s
    else if l.offset ≤ s.stop && s.stop ≤ l.stop && s.start < l.offset then
      [unnumbered width ++ "╰──── here"]
    else []
  row :: below

def render (name source : String) (s : Span) : String :=
  let index := LineIndex.ofText source
  let start := (index.lineCol? s.start).getD ⟨0, 0⟩
  let stop := (index.lineCol? s.stop).getD ⟨0, 0⟩
  let lines := (linesOf source).filter fun l => start.line ≤ l.number && l.number ≤ stop.line + 2
  let width := (Nat.toDigits 10 ((lines.getLast?.map (·.number)).getD 0)).length
  let place := toString (start.line + 1) ++ ":" ++ toString (start.col + 1)
  let marked := hasMargin lines s
  let header := spaces (width + 2) ++ "╭─[" ++ name ++ ":" ++ place ++ "]"
  let footer := spaces (width + 2) ++ "╰────"
  String.join ((header :: lines.flatMap (rows width marked s) ++ [footer]).map (· ++ "\n"))

end Recompose.Frame
