/-!
# Paths

A path is kept as it was written: the pieces between its slashes. Two
spellings of one path differ in pieces that are empty or a single dot; names,
extensions and the order of paths are read off the steps that are left without
them.
-/

namespace Recompose

/-- The pieces of a path between its slashes. -/
structure Path where
  pieces : List String
deriving DecidableEq, Repr, Inhabited

namespace Path

def ofText (text : String) : Path := ⟨text.splitOn "/"⟩

def text (p : Path) : String := "/".intercalate p.pieces

/-- The empty path. Taken relative to it, a path stays as it is. -/
def here : Path := ⟨[""]⟩

def isEmpty (p : Path) : Bool := p = here

def isAbsolute (p : Path) : Bool :=
  match p.pieces with
  | "" :: _ :: _ => true
  | _ => false

def join (base p : Path) : Path :=
  if p.isAbsolute then p
  else if base.pieces.getLast? = some "" then ⟨base.pieces.dropLast ++ p.pieces⟩
  else ⟨base.pieces ++ p.pieces⟩

/-! ## Steps -/

/-- Whether a piece leads nowhere. -/
def isIdle (piece : String) : Bool := piece = "" || piece = "."

def steps (p : Path) : List String := p.pieces.filter (!isIdle ·)

/-- The last step, unless it leads up. -/
def fileName? (p : Path) : Option String := p.steps.getLast?.filter (· ≠ "..")

/-- What follows the last dot of the name; a dot at the start of the name does
not count. -/
def extension? (p : Path) : Option String := do
  let name ← p.fileName?
  let letters := name.toList.reverse
  match letters.dropWhile (· ≠ '.') with
  | '.' :: _ :: _ => some (String.ofList (letters.takeWhile (· ≠ '.')).reverse)
  | _ => none

def dropSteps? : List String → List String → Option (List String)
  | [], pieces => some pieces
  | _ :: _, [] => none
  | step :: rest, piece :: pieces =>
    if isIdle piece then dropSteps? (step :: rest) pieces
    else if piece = step then dropSteps? rest pieces
    else none

def trimIdle (pieces : List String) : List String :=
  ((pieces.dropWhile isIdle).reverse.dropWhile isIdle).reverse

/-- The path from a base on, if it starts with the base. -/
def relativeTo? (base p : Path) : Option Path :=
  if base.isAbsolute = p.isAbsolute then
    (dropSteps? base.steps p.pieces).map fun rest => ⟨trimIdle rest⟩
  else none

/-- The path as it is shown to someone who stands at the base. -/
def shownFrom (base p : Path) : Path := (relativeTo? base p).getD p

/-! ## Order -/

/-- Steps up come before names. -/
def compareStep (a b : String) : Ordering :=
  if a = b then .eq
  else if a = ".." then .lt
  else if b = ".." then .gt
  else compare a b

def compareSteps : List String → List String → Ordering
  | [], [] => .eq
  | [], _ :: _ => .lt
  | _ :: _, [] => .gt
  | a :: as, b :: bs => (compareStep a b).then (compareSteps as bs)

def compareTo (a b : Path) : Ordering := compareSteps a.steps b.steps

/-- Keeps the first of neighbours that lead to the same place. -/
def dedup : List Path → List Path
  | [] => []
  | [p] => [p]
  | p :: q :: rest => if p.steps = q.steps then dedup (p :: rest) else p :: dedup (q :: rest)

def sorted (paths : List Path) : List Path :=
  dedup (paths.mergeSort fun a b => compareTo a b ≠ .gt)

end Path

end Recompose
