/-!
# Globs

A glob describes the paths to leave out. It is read into parts, and a part
tells which bytes it can take off the front of a path. Wild cards take any
byte, slashes among them; `**` between slashes takes whole folders.
-/

namespace Recompose

namespace Glob

/-- One part of a glob. -/
inductive Part where
  | literal (c : Char)
  /-- Any byte. -/
  | anyByte
  /-- Any bytes. -/
  | anyBytes
  /-- Any folders in front of the path, or none. -/
  | leadingFolders
  /-- Anything inside a folder. -/
  | insideFolder
  /-- A slash, or any folders between two slashes. -/
  | innerFolders
  /-- A byte in one of the ranges, or in none of them. -/
  | oneOf (negated : Bool) (ranges : List (Char × Char))
  /-- One of several sequences, none of which is void; nothing at all when
  there are none. -/
  | choice (branches : List (List Part))
deriving Repr, Inhabited

/-- Whether a part takes nothing. -/
def Part.isVoid : Part → Bool
  | .choice [] => true
  | _ => false

end Glob

structure Glob where
  parts : List Glob.Part
deriving Repr

namespace Glob

/-! ## Reading -/

/-- What has been read of a glob: the sequences of the braces that are open,
and the sequence being read. Sequences are kept backwards. -/
structure Draft where
  /-- For each open brace, inside out: the sequence before the brace and the
  branches already read. -/
  outer : List (List Part × List (List Part)) := []
  current : List Part := []

namespace Draft

def push (d : Draft) (p : Part) : Draft := { d with current := p :: d.current }

def isNested (d : Draft) : Bool := !d.outer.isEmpty

def openBrace (d : Draft) : Draft := ⟨(d.current, []) :: d.outer, []⟩

def nextBranch (d : Draft) : Draft :=
  match d.outer with
  | (before, branches) :: outer => ⟨(before, branches ++ [d.current.reverse]) :: outer, []⟩
  | [] => d.push (.literal ',')

/-- Closes a brace, if one is open, and leaves out void branches. -/
def closeBrace? (d : Draft) : Option Draft :=
  match d.outer with
  | (before, branches) :: outer =>
    let branches := (branches ++ [d.current.reverse]).filter (!·.all Part.isVoid)
    some ⟨outer, .choice branches :: before⟩
  | [] => none

/-- Two stars that stand for no folders. -/
def pushStars (d : Draft) : Draft := (d.push .anyBytes).push .anyBytes

/-- Puts a part for folders in the place of the slash before it. Right after
another such part it adds nothing. -/
def pushFolders (d : Draft) (p : Part) : Draft :=
  match d.current with
  | .leadingFolders :: _ | .insideFolder :: _ => d
  | _ :: before => { d with current := p :: before }
  | [] => d.push p

end Draft

/-- Reads the inside of brackets up to the closing one. `ranges` are backwards
and `inRange` tells whether the last one waits for its end. -/
def readRanges (ranges : List (Char × Char)) (first inRange : Bool) :
    List Char → Option (List (Char × Char) × List Char)
  | [] => none
  | c :: rest =>
    if c = ']' && !first then
      some ((if inRange then ('-', '-') :: ranges else ranges).reverse, rest)
    else if c = '-' && !first && !inRange then readRanges ranges false true rest
    else match inRange, ranges with
      | true, (low, _) :: ranges =>
        if c < low then none else readRanges ((low, c) :: ranges) false false rest
      | _, _ => readRanges ((c, c) :: ranges) false false rest

/-- The part that brackets are, and what follows them. -/
def readBrackets (cs : List Char) : Option (Part × List Char) :=
  match cs with
  | '!' :: rest | '^' :: rest =>
    (readRanges [] true false rest).map fun (ranges, after) => (.oneOf true ranges, after)
  | _ => (readRanges [] true false cs).map fun (ranges, after) => (.oneOf false ranges, after)

/-- Reads two stars: the draft after them and whether they took the slash that
follows. They stand for folders when they fill the place between slashes, ends
and braces. -/
def readStars (d : Draft) (previous : Option Char) (next : Option Char) : Draft × Bool :=
  if d.current.isEmpty then
    if next.all (· = '/') then (d.push .leadingFolders, next.isSome) else (d.pushStars, false)
  else if previous ≠ some '/' &&
      !(d.isNested && (previous = some ',' || previous = some '\x7b')) then
    (d.pushStars, false)
  else match next with
    | none => (d.pushFolders .insideFolder, false)
    | some '/' => (d.pushFolders .innerFolders, true)
    | some c =>
      if d.isNested && (c = ',' || c = '\x7d') then (d.pushFolders .insideFolder, false)
      else (d.pushStars, false)

/-- Reads on after `previous`; `fuel` is at least the number of characters. -/
def readParts (fuel : Nat) (d : Draft) (previous : Option Char) (cs : List Char) :
    Option (List Part) :=
  match fuel, cs with
  | _, [] => if d.isNested then none else some d.current.reverse
  | 0, _ => none
  | fuel + 1, '?' :: rest => readParts fuel (d.push .anyByte) (some '?') rest
  | fuel + 1, '*' :: '*' :: rest =>
    match readStars d previous rest.head? with
    | (d, true) => readParts fuel d (some '/') rest.tail
    | (d, false) => readParts fuel d (some '*') rest
  | fuel + 1, '*' :: rest => readParts fuel (d.push .anyBytes) (some '*') rest
  | fuel + 1, '[' :: rest =>
    (readBrackets rest).bind fun (part, after) => readParts fuel (d.push part) (some ']') after
  | fuel + 1, '\x7b' :: rest => readParts fuel d.openBrace (some '\x7b') rest
  | fuel + 1, '\x7d' :: rest =>
    d.closeBrace?.bind fun d => readParts fuel d (some '\x7d') rest
  | fuel + 1, ',' :: rest => readParts fuel d.nextBranch (some ',') rest
  | fuel + 1, '\\' :: c :: rest => readParts fuel (d.push (.literal c)) (some c) rest
  | _, ['\\'] => none
  | fuel + 1, c :: rest => readParts fuel (d.push (.literal c)) (some c) rest

/-- Reads a glob. Braces and brackets must be closed, ranges must ascend, and
a backslash needs a character after it. -/
def read? (text : String) : Option Glob :=
  (readParts text.length {} none text.toList).map Glob.mk

/-! ## Matching -/

def bytesOf (c : Char) : List UInt8 := (String.singleton c).toByteArray.data.toList

/-- Whether a byte is in a range of characters. A character of several bytes
stands for each of them; the range runs from the last byte of the first
character to the first byte of the last one. -/
def inRange (b : UInt8) (range : Char × Char) : Bool :=
  let low := bytesOf range.1
  let high := bytesOf range.2
  if range.1 = range.2 then low.contains b
  else low.dropLast.contains b || high.tail.contains b ||
    (low.getLastD 0 ≤ b && b ≤ high.headD 0)

def suffixes {α : Type} : List α → List (List α)
  | [] => [[]]
  | a :: as => (a :: as) :: suffixes as

/-- What is left after each slash. -/
def afterSlashes (bytes : List UInt8) : List (List UInt8) :=
  (suffixes bytes).filterMap fun
    | 47 :: rest => some rest
    | _ => none

def dropLiteral (c : Char) (bytes : List UInt8) : List (List UInt8) :=
  let expected := bytesOf c
  if expected.isPrefixOf bytes then [bytes.drop expected.length] else []

/-- Drops what is left more than once; remainders of one path are told apart
by their length. -/
def distinct (rests : List (List UInt8)) : List (List UInt8) :=
  rests.foldl (fun kept r => if kept.any (·.length = r.length) then kept else kept ++ [r]) []

mutual

/-- What can be left of some bytes after a part took its share. -/
def Part.rests (bytes : List UInt8) : Part → List (List UInt8)
  | .literal c => dropLiteral c bytes
  | .anyByte => match bytes with
    | _ :: rest => [rest]
    | [] => []
  | .anyBytes => suffixes bytes
  | .leadingFolders => bytes :: afterSlashes bytes
  | .insideFolder => match bytes with
    | 47 :: rest => suffixes rest
    | _ => []
  | .innerFolders => match bytes with
    | 47 :: rest => rest :: afterSlashes rest
    | _ => []
  | .oneOf negated ranges => match bytes with
    | b :: rest => if ranges.any (inRange b) != negated then [rest] else []
    | [] => []
  | .choice [] => [bytes]
  | .choice (branch :: branches) => choiceRests bytes (branch :: branches)

/-- What can be left after one of several sequences. -/
def choiceRests (bytes : List UInt8) : List (List Part) → List (List UInt8)
  | [] => []
  | branch :: branches => sequenceRests [bytes] branch ++ choiceRests bytes branches

/-- What can be left after a sequence, from any of several starts. -/
def sequenceRests (starts : List (List UInt8)) : List Part → List (List UInt8)
  | [] => starts
  | p :: ps => sequenceRests (distinct (starts.flatMap fun bytes => p.rests bytes)) ps

end

/-- Whether a glob describes the whole of a path. A glob that is nothing but
`**` describes every path. -/
def matchesText (g : Glob) (path : String) : Bool :=
  match g.parts with
  | [.leadingFolders] => true
  | parts => (sequenceRests [path.toByteArray.data.toList] parts).any List.isEmpty

end Glob

end Recompose
