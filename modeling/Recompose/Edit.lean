import Recompose.SourceMap

/-!
# Edits

Changes to a text are recorded against the untouched text and applied
together. An edit with an empty span is an insertion. Applying sorts the
edits, refuses overlaps, and lays out the result piece by piece, which also
gives its source map.
-/

namespace Recompose

/-- A pending change: the text that takes the place of a span. -/
structure Edit where
  span : Span
  text : String
deriving DecidableEq, Repr

def Edit.isInsertion (e : Edit) : Bool := e.span.isEmpty

inductive EditError where
  /-- Two edits touch the same bytes, or an insertion falls inside a replaced
  range. -/
  | overlap (first second : Span)
  /-- A span is no piece of the text, whose size is given. -/
  | outOfBounds (span : Span) (size : Nat)
deriving DecidableEq, Repr

def Span.describe (s : Span) : String :=
  "Span \x7b start: " ++ toString s.start ++ ", end: " ++ toString s.stop ++ " \x7d"

def EditError.message : EditError → String
  | .overlap first second =>
    "overlapping edits at " ++ first.describe ++ " and " ++ second.describe
  | .outOfBounds span size =>
    "edit " ++ span.describe ++ " is outside of the " ++ toString size ++ " byte source"

/-- The edits recorded so far, in call order. -/
structure Edits where
  recorded : List Edit := []
deriving Repr

/-- The text after all edits and the way back to the text before them. -/
structure Applied where
  text : String
  sourceMap : SourceMap
deriving Repr

namespace Edits

/-! ## Recording -/

def isUnchanged (edits : Edits) : Bool := edits.recorded.isEmpty

def push (edits : Edits) (span : Span) (text : String) : Edits :=
  ⟨edits.recorded ++ [⟨span, text⟩]⟩

/-- Inserts text at an offset; insertions at one offset keep call order, and
empty text is no edit. -/
def insert (edits : Edits) (offset : Nat) (text : String) : Edits :=
  if text.isEmpty then edits else edits.push (Span.point offset) text

def overwrite (edits : Edits) (span : Span) (text : String) : Edits :=
  edits.push span text

/-- Deletes the text under a span; an empty span is no edit. -/
def remove (edits : Edits) (span : Span) : Edits :=
  if span.isEmpty then edits else edits.push span ""

/-! ## Applying -/

/-- Edits go by start; at one offset, insertions go first. -/
def le (a b : Edit) : Bool :=
  a.span.start < b.span.start ||
    (a.span.start == b.span.start && (a.isInsertion || !b.isInsertion))

/-- The recorded edits in the order in which they are laid out; edits that
compare equal keep call order. -/
def sorted (edits : Edits) : List Edit := edits.recorded.mergeSort le

/-- The first edit, in call order, that spans no piece of the text. -/
def outside? (text : List Char) (edits : Edits) : Option Edit :=
  edits.recorded.find? fun e => (e.span.chars? text).isNone

/-- The first conflict among sorted edits: an edit that starts before the end
of the last replaced range, with that range. -/
def conflict? (covered : Option Span) : List Edit → Option (Span × Span)
  | [] => none
  | e :: es =>
    let next := if e.isInsertion then covered else some e.span
    match covered with
    | some previous =>
      if e.span.start < previous.stop then some (previous, e.span) else conflict? next es
    | none => conflict? next es

/-- Lays out sorted edits over `rest`, the part of the text from `offset` on. -/
def layout (offset : Nat) (rest : List Char) : List Edit → List Piece
  | [] => [.kept rest offset]
  | e :: es =>
    let gap := e.span.start - offset
    let kept := (takeBytes? gap rest).getD []
    let after := (dropBytes? (gap + e.span.length) rest).getD []
    let change : Piece :=
      if e.isInsertion then .inserted e.text.toList else .replaced e.text.toList e.span
    .kept kept offset :: change :: layout e.span.stop after es

def apply (source : String) (edits : Edits) : Except EditError Applied :=
  let chars := source.toList
  match edits.outside? chars with
  | some e => .error (.outOfBounds e.span (byteSize chars))
  | none =>
    match conflict? none edits.sorted with
    | some (first, second) => .error (.overlap first second)
    | none =>
      let pieces := layout 0 chars edits.sorted
      .ok ⟨String.ofList (pieces.flatMap Piece.text), SourceMap.ofPieces pieces⟩

end Edits

end Recompose
