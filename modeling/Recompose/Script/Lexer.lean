import Recompose.Decimal.Shortest
import Recompose.Script.Token
import Recompose.Text.Unicode

/-!
# Reading tokens

Readers take the offset at which they stand and what is left of the script,
and return the offset and the rest after what they read. Whether a slash
divides or starts a regular expression, and what a closing brace ends, depends
on the place in the grammar; `lexToken` always takes a slash for division, and
the parser reads regular expressions, templates and markup text with the
readers for them.
-/

namespace Recompose.Script

/-! ## Character classes -/

def isLineEnd (c : Char) : Bool :=
  c = '\n' || c = '\r' || c = '\u2028' || c = '\u2029'

/-- White space between tokens, line ends apart. -/
def isGapChar (c : Char) : Bool :=
  let n := c.toNat
  n = 0x20 || n = 9 || n = 11 || n = 12 || n = 0xa0 || n = 0xfeff || n = 0x1680 ||
    (0x2000 ≤ n && n ≤ 0x200a) || n = 0x202f || n = 0x205f || n = 0x3000

def isNameStart (c : Char) : Bool := c = '$' || c = '_' || Unicode.isIdStart c

def isNamePart (c : Char) : Bool :=
  c = '$' || Unicode.isIdContinue c || c = '\u200c' || c = '\u200d'

def hexValue? (c : Char) : Option Nat :=
  if '0' ≤ c && c ≤ '9' then some (c.toNat - '0'.toNat)
  else if 'a' ≤ c && c ≤ 'f' then some (c.toNat - 'a'.toNat + 10)
  else if 'A' ≤ c && c ≤ 'F' then some (c.toNat - 'A'.toNat + 10)
  else none

def isHexDigit (c : Char) : Bool := (hexValue? c).isSome

def isOctalDigit (c : Char) : Bool := '0' ≤ c && c ≤ '7'

/-- The number that digits spell in a base; separators count for nothing. -/
def digitsValue (base : Nat) (digits : List Char) : Nat :=
  digits.foldl (fun n c => match hexValue? c with
    | some v => n * base + v
    | none => n) 0

/-! ## Gaps between tokens -/

/-- What a gap is in the middle of. -/
inductive Gap where
  | blank
  | lineComment
  /-- Before the second character that opens a block comment. -/
  | blockOpen
  | blockComment
  /-- Before the second character that closes a block comment. -/
  | blockClose

/-- Skips white space and comments. Also tells whether a line ended. -/
def skipGap (gap : Gap) (pos : Nat) (newline : Bool) : List Char → Nat × Bool × List Char
  | [] => (pos, newline, [])
  | c :: cs =>
    let next := pos + c.utf8Size
    match gap with
    | .blank =>
      if isLineEnd c then skipGap .blank next true cs
      else if isGapChar c then skipGap .blank next newline cs
      else if c = '/' && cs.head? = some '/' then skipGap .lineComment next newline cs
      else if c = '/' && cs.head? = some '*' then skipGap .blockOpen next newline cs
      else (pos, newline, c :: cs)
    | .lineComment =>
      if isLineEnd c then skipGap .blank next true cs
      else skipGap .lineComment next newline cs
    | .blockOpen => skipGap .blockComment next newline cs
    | .blockComment =>
      if c = '*' && cs.head? = some '/' then skipGap .blockClose next newline cs
      else skipGap .blockComment next (newline || isLineEnd c) cs
    | .blockClose => skipGap .blank next newline cs

/-! ## Escapes -/

/-- The escape after a backslash: the code point it stands for, if any, and
how many characters it takes. -/
def readEscape? : List Char → Option (Option Nat × Nat)
  | [] => none
  | c :: cs =>
    if c = 'n' then some (some 10, 1)
    else if c = 't' then some (some 9, 1)
    else if c = 'r' then some (some 13, 1)
    else if c = 'b' then some (some 8, 1)
    else if c = 'v' then some (some 11, 1)
    else if c = 'f' then some (some 12, 1)
    else if c = '\r' then some (none, if cs.head? = some '\n' then 2 else 1)
    else if isLineEnd c then some (none, 1)
    else if c = 'x' then
      let digits := cs.take 2
      if digits.length = 2 && digits.all isHexDigit then some (some (digitsValue 16 digits), 3)
      else none
    else if c = 'u' then
      if cs.head? = some '{' then
        let digits := (cs.drop 1).takeWhile isHexDigit
        if !digits.isEmpty && (cs.drop (1 + digits.length)).head? = some '}' &&
            digitsValue 16 digits ≤ 0x10ffff then
          some (some (digitsValue 16 digits), digits.length + 3)
        else none
      else
        let digits := cs.take 4
        if digits.length = 4 && digits.all isHexDigit then some (some (digitsValue 16 digits), 5)
        else none
    else if isOctalDigit c then
      let most := if c ≤ '3' then 2 else 1
      let digits := c :: (cs.take most).takeWhile isOctalDigit
      some (some (digitsValue 8 digits), digits.length)
    else some (some c.toNat, 1)

/-- Joins the halves of surrogate pairs. Nothing when a half stands alone. -/
def joinSurrogates? : List Nat → Option (List Char)
  | [] => some []
  | high :: low :: rest =>
    if 0xd800 ≤ high && high ≤ 0xdbff && 0xdc00 ≤ low && low ≤ 0xdfff then
      (joinSurrogates? rest).map
        (Char.ofNat (0x10000 + (high - 0xd800) * 0x400 + (low - 0xdc00)) :: ·)
    else if 0xd800 ≤ high && high ≤ 0xdfff then none
    else (joinSurrogates? (low :: rest)).map (Char.ofNat high :: ·)
  | [unit] => if 0xd800 ≤ unit && unit ≤ 0xdfff then none else some [Char.ofNat unit]

/-! ## Words, strings and numbers -/

/-- The rest of a name: its characters, newest first, and whether an escape
spells one. The next `skip` characters belong to an escape already read. -/
def readName (skip : Nat) (pos : Nat) (name : List Char) (escaped : Bool) :
    List Char → List Char × Bool × Nat × List Char
  | [] => (name, escaped, pos, [])
  | c :: cs =>
    let next := pos + c.utf8Size
    match skip with
    | k + 1 => readName k next name escaped cs
    | 0 =>
      if isNamePart c then readName 0 next (c :: name) escaped cs
      else if c = '\\' then
        match readEscape? cs with
        | some (some code, n) =>
          if cs.head? = some 'u' then readName n next (Char.ofNat code :: name) true cs
          else (name, escaped, pos, c :: cs)
        | _ => (name, escaped, pos, c :: cs)
      else (name, escaped, pos, c :: cs)

/-- The rest of a string: its code points, newest first. A string that no
quote ends stops at the end of the line. Nothing on a malformed escape, which
ends at the given offset. -/
def readString (quote : Char) (skip : Nat) (pos : Nat) (units : List Nat) :
    List Char → Except Nat (List Nat × Nat × List Char)
  | [] => .ok (units, pos, [])
  | c :: cs =>
    let next := pos + c.utf8Size
    match skip with
    | k + 1 => readString quote k next units cs
    | 0 =>
      if c = quote then .ok (units, next, cs)
      else if c = '\n' || c = '\r' then .ok (units, pos, c :: cs)
      else if c = '\\' then
        match readEscape? cs with
        | some (some code, n) => readString quote n next (code :: units) cs
        | some (none, n) => readString quote n next units cs
        | none => if cs.isEmpty then .ok (units, next, []) else .error (next + 1)
      else readString quote 0 next (c.toNat :: units) cs

def spanDigits (isDigit : Char → Bool) (cs : List Char) : List Char × List Char :=
  let inside := fun c => isDigit c || c = '_'
  (cs.takeWhile inside, cs.dropWhile inside)

/-- The sign of an exponent, how many characters it takes, and what follows. -/
def readSign : List Char → Int × Nat × List Char
  | '-' :: rest => (-1, 1, rest)
  | '+' :: rest => (1, 1, rest)
  | rest => (1, 0, rest)

/-- The exponent of a number, if one begins here, and how many characters it
takes. -/
def readExponent? (cs : List Char) : Option (Int × Nat × List Char) :=
  match cs with
  | e :: rest =>
    if e = 'e' || e = 'E' then
      let (sign, signSize, rest) := readSign rest
      let (digits, after) := spanDigits Char.isDigit rest
      if digits.isEmpty then none
      else some (sign * digitsValue 10 digits, 1 + signSize + digits.length, after)
    else none
  | [] => none

/-- The fraction of a number, if one begins here: its digits, how many
characters it takes, and what follows. -/
def readFraction : List Char → List Char × Nat × List Char
  | '.' :: rest =>
    let (digits, after) := spanDigits Char.isDigit rest
    (digits.filter (· ≠ '_'), 1 + digits.length, after)
  | rest => ([], 0, rest)

/-- A whole number in a base, after the marker of the base. -/
def readRadix (base : Nat) (isDigit : Char → Bool) (pos : Nat) (cs : List Char) :
    TokenKind × Nat × List Char :=
  let (digits, rest) := spanDigits isDigit cs
  let stop := pos + digits.length
  match rest with
  | 'n' :: after => (.bigint, stop + 1, after)
  | _ => (.number (Decimal.textOf ⟨digitsValue base digits, 1⟩), stop, rest)

def readDecimal (pos : Nat) (cs : List Char) : TokenKind × Nat × List Char :=
  let (whole, rest) := spanDigits Char.isDigit cs
  let stop := pos + whole.length
  if whole.length > 1 && whole.head? = some '0' && whole.all isOctalDigit then
    (.number (Decimal.textOf ⟨digitsValue 8 whole, 1⟩), stop, rest)
  else
    match rest with
    | 'n' :: after => (.bigint, stop + 1, after)
    | _ =>
      let (fraction, size, rest) := readFraction rest
      let digits := digitsValue 10 (whole ++ fraction)
      let places : Int := fraction.length
      match readExponent? rest with
      | some (e, n, after) =>
        (.number (Decimal.textOfDecimal digits (e - places)), stop + size + n, after)
      | none => (.number (Decimal.textOfDecimal digits (-places)), stop + size, rest)

/-- A number that starts here. All its characters are ASCII. -/
def readNumber (pos : Nat) (cs : List Char) : TokenKind × Nat × List Char :=
  match cs with
  | '0' :: marker :: rest =>
    if marker = 'x' || marker = 'X' then readRadix 16 isHexDigit (pos + 2) rest
    else if marker = 'o' || marker = 'O' then readRadix 8 isOctalDigit (pos + 2) rest
    else if marker = 'b' || marker = 'B' then
      readRadix 2 (fun c => c = '0' || c = '1') (pos + 2) rest
    else readDecimal pos cs
  | _ => readDecimal pos cs

/-! ## Punctuation -/

/-- Punctuation of more than one character, longer ones first. A `>` is always
read alone: whether it belongs to an operator depends on the grammar. -/
def punctuators : List String :=
  ["...", "===", "!==", "**=", "<<=", "&&=", "||=", "??=",
   "=>", "==", "!=", "<=", "++", "--", "&&", "||", "??", "**", "<<",
   "+=", "-=", "*=", "/=", "%=", "&=", "|=", "^="]

/-- Operators that start with `>`, longer ones first. -/
def greaterOperators : List String := [">>>=", ">>>", ">>=", ">>", ">=", ">"]

def firstMatch? (texts : List String) (cs : List Char) : Option String :=
  texts.find? fun t => t.toList.isPrefixOf cs

def isPunctChar (c : Char) : Bool :=
  "\x7b\x7d()[];,<>+-*/%&|^!~?:=.@#`".toList.contains c

def readPunct? (cs : List Char) : Option String :=
  match firstMatch? punctuators cs with
  | some text => some text
  | none =>
    match cs with
    | '?' :: '.' :: rest => some (if rest.head?.any Char.isDigit then "?" else "?.")
    | c :: _ => if isPunctChar c then some (String.singleton c) else none
    | [] => none

/-! ## Tokens -/

/-- The token that starts here, where no gap is left. -/
def readToken (pos : Nat) (cs : List Char) : TokenKind × Nat × List Char :=
  match cs with
  | [] => (.done, pos, [])
  | c :: rest =>
    if isNameStart c || c = '\\' then
      let (name, escaped, stop, after) := readName 0 pos [] false cs
      if name.isEmpty then (.invalid ⟨pos, pos + c.utf8Size⟩, pos + c.utf8Size, rest)
      else (.word (String.ofList name.reverse) escaped, stop, after)
    else if c = '"' || c = '\'' then
      match readString c 0 (pos + 1) [] rest with
      | .ok (units, stop, after) =>
        (.string ((joinSurrogates? units.reverse).map String.ofList), stop, after)
      | .error stop => (.invalid ⟨pos, stop⟩, pos + 1, rest)
    else if c.isDigit || (c = '.' && rest.head?.any Char.isDigit) then
      let (kind, stop, after) := readNumber pos cs
      if after.head?.any isNameStart then (.invalid ⟨stop, stop⟩, stop, after) else (kind, stop, after)
    else if c = '#' && rest.head?.any (fun d => isNameStart d || d = '\\') then
      let (_, _, stop, after) := readName 0 (pos + 1) [] false rest
      (.privateName, stop, after)
    else
      match readPunct? cs with
      | some text => (.punct text, pos + text.length, cs.drop text.length)
      | none => (.invalid ⟨pos, pos + c.utf8Size⟩, pos + c.utf8Size, rest)

/-! ## Other lexical grammars -/

/-- The rest of a regular expression after its opening slash, flags included. -/
def readRegex? (inClass : Bool) (skip : Bool) (pos : Nat) : List Char → Option (Nat × List Char)
  | [] => none
  | c :: cs =>
    let next := pos + c.utf8Size
    if isLineEnd c then none
    else if skip then readRegex? inClass false next cs
    else if c = '\\' then readRegex? inClass true next cs
    else if c = '[' then readRegex? true false next cs
    else if c = ']' then readRegex? false false next cs
    else if c = '/' && !inClass then
      let (_, _, stop, after) := readName 0 next [] false cs
      some (stop, after)
    else readRegex? inClass false next cs

/-- Text of a template up to a backquote or a substitution, whose opening
characters are dropped; tells which of the two ended it. -/
def readTemplateText? (skip : Bool) (pos : Nat) : List Char → Option (Bool × Nat × List Char)
  | [] => none
  | c :: cs =>
    let next := pos + c.utf8Size
    if skip then readTemplateText? false next cs
    else if c = '\\' then readTemplateText? true next cs
    else if c = '`' then some (true, next, cs)
    else if c = '$' then
      match cs with
      | '{' :: rest => some (false, next + 1, rest)
      | _ => readTemplateText? false next cs
    else readTemplateText? false next cs

def readMarkupText (pos : Nat) : List Char → Nat × List Char
  | [] => (pos, [])
  | c :: cs =>
    if c = '<' || c = '{' then (pos, c :: cs) else readMarkupText (pos + c.utf8Size) cs

/-- The rest of a quoted markup attribute, which has no escapes. -/
def readMarkupString? (quote : Char) (pos : Nat) : List Char → Option (Nat × List Char)
  | [] => none
  | c :: cs =>
    let next := pos + c.utf8Size
    if c = quote then some (next, cs) else readMarkupString? quote next cs

def readMarkupName (pos : Nat) : List Char → Nat × List Char
  | [] => (pos, [])
  | c :: cs =>
    if isNamePart c || c = '-' then readMarkupName (pos + c.utf8Size) cs else (pos, c :: cs)

end Recompose.Script
