/-!
# Layout of code

Lines and indentation. Code that is moved starts in the middle of a line, so
its first line never carries indentation; `dedent` and `indent` shift the
lines after it.
-/

namespace Recompose

/-! ## Lines -/

/-- Splits at every line feed; there is always at least one line. -/
def splitLines : List Char → List (List Char)
  | [] => [[]]
  | c :: cs =>
    if c = '\n' then [] :: splitLines cs
    else match splitLines cs with
      | [] => [[c]]
      | line :: rest => (c :: line) :: rest

def joinLines : List (List Char) → List Char
  | [] => []
  | [line] => line
  | line :: rest => line ++ '\n' :: joinLines rest

def leadingSpaces (line : List Char) : Nat := (line.takeWhile (· = ' ')).length

/-! ## Shifting -/

/-- How far the lines after the first are shifted left: the least indentation
among those that have one, the last line counted whether it has one or not. -/
def commonIndent : List (List Char) → Nat
  | [] => 0
  | [last] => leadingSpaces last
  | line :: rest =>
    if leadingSpaces line = 0 then commonIndent rest
    else min (leadingSpaces line) (commonIndent rest)

def dedentLine (base : Nat) (line : List Char) : List Char :=
  if base ≤ leadingSpaces line then line.drop base else line

/-- Removes the common indentation of every line after the first. -/
def dedentChars (code : List Char) : List Char :=
  match splitLines code with
  | [] => []
  | first :: rest =>
    joinLines (first :: rest.map (dedentLine (commonIndent rest)))

def indentLine (n : Nat) (line : List Char) : List Char :=
  if line.isEmpty then line else List.replicate n ' ' ++ line

/-- Indents every non-empty line after the first. -/
def indentChars (n : Nat) (code : List Char) : List Char :=
  match splitLines code with
  | [] => []
  | first :: rest => joinLines (first :: rest.map (indentLine n))

def dedent (code : String) : String := String.ofList (dedentChars code.toList)

def indent (code : String) (n : Nat) : String := String.ofList (indentChars n code.toList)

/-! ## Objects and sections -/

/-- An object or type literal with one item a line, or empty braces. -/
def multilineObject (items : List String) : String :=
  if items.isEmpty then "\x7b\x7d"
  else "\x7b\n" ++ String.join (items.map fun item => "  " ++ indent item 2 ++ ",\n") ++ "\x7d"

/-- Sections of code, separated by a blank line; empty ones are left out. -/
def joinSections (sections : List String) : String :=
  "\n\n".intercalate (sections.filter fun s => !s.isEmpty)

end Recompose
