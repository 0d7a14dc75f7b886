import Recompose.Decimal.Shortest
import Recompose.Json.Basic

/-!
# Reading JSON

A reader takes a value off the front of a text. The grammar is the strict one:
no comments, no trailing commas, nothing after the value. Three inputs are
refused beyond the grammar: a number that no binary number is near to, a
string with half of a surrogate pair, and a value nested too deeply.
-/

namespace Recompose.Json

/-- How deep arrays and objects may be nested. -/
def maxDepth : Nat := 127

def isJsonBlank (c : Char) : Bool := c = ' ' || c = '\t' || c = '\n' || c = '\r'

def skipBlank (cs : List Char) : List Char := cs.dropWhile isJsonBlank

/-! ## Strings -/

def hexDigit? (c : Char) : Option Nat :=
  if c.isDigit then some (c.toNat - '0'.toNat)
  else if 'a' ≤ c ∧ c ≤ 'f' then some (c.toNat - 'a'.toNat + 10)
  else if 'A' ≤ c ∧ c ≤ 'F' then some (c.toNat - 'A'.toNat + 10)
  else none

/-- The code unit that four hexadecimal digits spell. -/
def codeUnit? (a b c d : Char) : Option Nat := do
  return (((← hexDigit? a) * 16 + (← hexDigit? b)) * 16 + (← hexDigit? c)) * 16 + (← hexDigit? d)

def escaped? : Char → Option Char
  | '"' => some '"'
  | '\\' => some '\\'
  | '/' => some '/'
  | 'b' => some '\x08'
  | 'f' => some '\x0c'
  | 'n' => some '\n'
  | 'r' => some '\r'
  | 't' => some '\t'
  | _ => none

/-- The characters of a string up to its closing quote, and what follows. -/
def readString : List Char → Option (List Char × List Char)
  | [] => none
  | '"' :: rest => some ([], rest)
  | '\\' :: 'u' :: a :: b :: c :: d :: rest =>
    match codeUnit? a b c d with
    | none => none
    | some unit =>
      if 0xd800 ≤ unit ∧ unit < 0xdc00 then
        match rest with
        | '\\' :: 'u' :: a :: b :: c :: d :: rest =>
          match codeUnit? a b c d with
          | some low =>
            if 0xdc00 ≤ low ∧ low < 0xe000 then
              let code := 0x10000 + (unit - 0xd800) * 0x400 + (low - 0xdc00)
              (readString rest).map fun (cs, after) => (Char.ofNat code :: cs, after)
            else none
          | none => none
        | _ => none
      else if 0xdc00 ≤ unit ∧ unit < 0xe000 then none
      else (readString rest).map fun (cs, after) => (Char.ofNat unit :: cs, after)
  | '\\' :: letter :: rest =>
    match escaped? letter with
    | some c => (readString rest).map fun (cs, after) => (c :: cs, after)
    | none => none
  | c :: rest =>
    if c.toNat < 0x20 then none
    else (readString rest).map fun (cs, after) => (c :: cs, after)

/-! ## Numbers -/

def readDigits (cs : List Char) : Option (List Char × List Char) :=
  match cs.takeWhile Char.isDigit with
  | [] => none
  | digits => some (digits, cs.dropWhile Char.isDigit)

def digitsValue (digits : List Char) : Nat :=
  digits.foldl (fun n c => n * 10 + (c.toNat - '0'.toNat)) 0

/-- The whole part, which has no zero in front of other digits. -/
def readWhole : List Char → Option (List Char × List Char)
  | '0' :: rest => if (rest.takeWhile Char.isDigit).isEmpty then some (['0'], rest) else none
  | cs => readDigits cs

def readPlaces : List Char → Option (List Char × List Char)
  | '.' :: rest => readDigits rest
  | cs => some ([], cs)

def readSigned : List Char → Option (Int × List Char)
  | '+' :: rest => (readDigits rest).map fun (ds, after) => ((digitsValue ds : Int), after)
  | '-' :: rest => (readDigits rest).map fun (ds, after) => (-(digitsValue ds : Int), after)
  | cs => (readDigits cs).map fun (ds, after) => ((digitsValue ds : Int), after)

def readExponent : List Char → Option (Int × List Char)
  | 'e' :: rest => readSigned rest
  | 'E' :: rest => readSigned rest
  | cs => some (0, cs)

/-- A number without its sign: the text of the nearest binary number. -/
def readMagnitude (cs : List Char) : Option (String × List Char) := do
  let (whole, cs) ← readWhole cs
  let (places, cs) ← readPlaces cs
  let (exponent, cs) ← readExponent cs
  let text := Decimal.textOfDecimal (digitsValue (whole ++ places)) (exponent - places.length)
  if text = "inf" then none else some (text, cs)

def readNumber : List Char → Option (String × List Char)
  | '-' :: rest => (readMagnitude rest).map fun (text, after) => ("-" ++ text, after)
  | cs => readMagnitude cs

/-! ## Values -/

mutual

/-- A value at the front of a text. `depth` is the nesting that is left and
`fuel` bounds the number of steps. -/
def readValue (fuel depth : Nat) (cs : List Char) : Option (Value × List Char) :=
  match fuel with
  | 0 => none
  | fuel + 1 =>
    match skipBlank cs with
    | 'n' :: 'u' :: 'l' :: 'l' :: rest => some (.null, rest)
    | 't' :: 'r' :: 'u' :: 'e' :: rest => some (.bool true, rest)
    | 'f' :: 'a' :: 'l' :: 's' :: 'e' :: rest => some (.bool false, rest)
    | '"' :: rest => (readString rest).map fun (s, after) => (.text (String.ofList s), after)
    | '[' :: rest =>
      match depth, skipBlank rest with
      | 0, _ => none
      | _, ']' :: after => some (.list [], after)
      | depth + 1, _ => readItems fuel depth [] rest
    | '\x7b' :: rest =>
      match depth, skipBlank rest with
      | 0, _ => none
      | _, '\x7d' :: after => some (.object [], after)
      | depth + 1, _ => readFields fuel depth [] rest
    | cs => (readNumber cs).map fun (text, after) => (.number text, after)

/-- The items of an array after those already read. -/
def readItems (fuel depth : Nat) (read : List Value) (cs : List Char) :
    Option (Value × List Char) :=
  match fuel with
  | 0 => none
  | fuel + 1 =>
    match readValue fuel depth cs with
    | none => none
    | some (item, rest) =>
      match skipBlank rest with
      | ',' :: rest => readItems fuel depth (read ++ [item]) rest
      | ']' :: rest => some (.list (read ++ [item]), rest)
      | _ => none

/-- The fields of an object after those already read. The last value of a
repeated name counts. -/
def readFields (fuel depth : Nat) (read : Entries Value) (cs : List Char) :
    Option (Value × List Char) :=
  match fuel with
  | 0 => none
  | fuel + 1 =>
    match skipBlank cs with
    | '"' :: rest =>
      match readString rest with
      | none => none
      | some (name, rest) =>
        match skipBlank rest with
        | ':' :: rest =>
          match readValue fuel depth rest with
          | none => none
          | some (value, rest) =>
            let read := read.put (String.ofList name) value
            match skipBlank rest with
            | ',' :: rest => readFields fuel depth read rest
            | '\x7d' :: rest => some (.object read, rest)
            | _ => none
        | _ => none
    | _ => none

end

def read? (text : String) : Option Value :=
  match readValue (2 * text.length + 2) maxDepth text.toList with
  | some (value, rest) => if (skipBlank rest).isEmpty then some value else none
  | none => none

end Recompose.Json
