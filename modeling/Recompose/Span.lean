/-!
# Byte spans

Offsets count UTF-8 bytes, while texts are lists of characters. A span is a
half-open range of offsets; it denotes a piece of text only when it is in
range, is not reversed, and cuts no character in two (`Span.slice?`).
-/

namespace Recompose

/-! ## Measuring and cutting texts by bytes -/

def byteSize : List Char → Nat
  | [] => 0
  | c :: cs => c.utf8Size + byteSize cs

/-- What follows the first `n` bytes, unless they end inside a character or
past the end. -/
def dropBytes? : Nat → List Char → Option (List Char)
  | 0, cs => some cs
  | _ + 1, [] => none
  | n + 1, c :: cs =>
    if c.utf8Size ≤ n + 1 then dropBytes? (n + 1 - c.utf8Size) cs else none

/-- The first `n` bytes, unless they end inside a character or past the end. -/
def takeBytes? : Nat → List Char → Option (List Char)
  | 0, _ => some []
  | _ + 1, [] => none
  | n + 1, c :: cs =>
    if c.utf8Size ≤ n + 1 then (takeBytes? (n + 1 - c.utf8Size) cs).map (c :: ·) else none

@[simp] theorem byteSize_nil : byteSize [] = 0 := rfl

@[simp] theorem byteSize_cons (c : Char) (cs : List Char) :
    byteSize (c :: cs) = c.utf8Size + byteSize cs := rfl

@[simp] theorem byteSize_append (xs ys : List Char) :
    byteSize (xs ++ ys) = byteSize xs + byteSize ys := by
  induction xs with
  | nil => simp
  | cons c cs ih => simp [ih, Nat.add_assoc]

/-! ## Spans -/

/-- The bytes from `start` up to, and not including, `stop`. -/
structure Span where
  start : Nat
  stop : Nat
deriving DecidableEq, Repr, Inhabited

namespace Span

/-- The empty span at an offset: where an insertion goes. -/
def point (offset : Nat) : Span := ⟨offset, offset⟩

def length (s : Span) : Nat := s.stop - s.start

def isEmpty (s : Span) : Bool := s.start == s.stop

def shift (s : Span) (delta : Nat) : Span := ⟨s.start + delta, s.stop + delta⟩

def covers (outer inner : Span) : Bool :=
  outer.start ≤ inner.start && inner.stop ≤ outer.stop

/-- From the start of one span to the end of a later one. -/
def upTo (first last : Span) : Span := ⟨first.start, last.stop⟩

/-- The characters under a span, or nothing when the span is reversed, out of
range, or cuts a character. -/
def chars? (s : Span) (text : List Char) : Option (List Char) :=
  if s.start ≤ s.stop then
    (dropBytes? s.start text).bind (takeBytes? (s.stop - s.start))
  else none

/-- The text under a span. -/
def slice? (s : Span) (text : String) : Option String :=
  (s.chars? text.toList).map String.ofList

end Span

end Recompose
