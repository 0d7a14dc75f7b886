import Recompose.Script.Lexer
import Recompose.Script.Tree

/-!
# Cursors and parsers

A cursor stands on one token of a script. A parser moves the cursor forward
and fails with the span of the first token that cannot be part of a script. It
then also says where it stopped, so that another parser can go on from there.
-/

namespace Recompose.Script

/-! ## Cursors -/

structure Cursor where
  /-- The script from the current token on. -/
  here : List Char
  token : Token
  /-- The script after the current token. -/
  after : List Char
  /-- Where the previous token ended. -/
  prevStop : Nat
deriving Inhabited

namespace Cursor

/-- Stands on the first token at or after an offset, where the previous token
ended. -/
def start (offset : Nat) (cs : List Char) : Cursor :=
  let (pos, newline, here) := skipGap .blank offset false cs
  let (kind, stop, after) := readToken pos here
  { here, token := ⟨kind, ⟨pos, stop⟩, newline⟩, after, prevStop := offset }

def next (c : Cursor) : Cursor := start c.token.span.stop c.after

/-- The span of the fault when the current token cannot stand here. -/
def fault (c : Cursor) : Span :=
  match c.token.kind with
  | .invalid span => span
  | _ => c.token.span

/-- Where a parser stops that fails at the current token: on it, but past text
that is no token. -/
def stop (c : Cursor) : Cursor :=
  match c.token.kind with
  | .invalid _ => c.next
  | _ => c

end Cursor

/-- How a parser fails. -/
structure Failure where
  /-- What cannot stand where it does. -/
  span : Span
  /-- Where the parser stopped. -/
  stop : Cursor

/-! ## Parsers -/

abbrev Parser := StateT Cursor (Except Failure)

namespace Parser

variable {α β σ : Type}

def blame (span : Span) : Parser α := do
  throw ⟨span, (← get).stop⟩

def unexpected : Parser α := do
  blame (← get).fault

/-- Tries a parser and stays put when it fails. -/
def attempt (p : Parser α) : Parser (Option α) := fun c =>
  match p c with
  | .ok (a, c') => .ok (some a, c')
  | .error _ => .ok (none, c)

def lookahead (p : Parser α) : Parser (Option α) := fun c =>
  match p c with
  | .ok (a, _) => .ok (some a, c)
  | .error _ => .ok (none, c)

/-- Passes what a parser passes, also when it fails. -/
def tolerate (p : Parser α) : Parser Unit := fun c =>
  match p c with
  | .ok (_, c') => .ok ((), c')
  | .error e => .ok ((), e.stop)

/-- What a repeated step says: go on with a new state, or stop. -/
inductive Step (σ β : Type) where
  | more (state : σ)
  | done (result : β)

/-- Repeats a step, at most `limit` times. -/
def loop (limit : Nat) (step : σ → Parser (Step σ β)) (state : σ) : Parser β :=
  match limit with
  | 0 => unexpected
  | n + 1 => do
    match ← step state with
    | .more s => loop n step s
    | .done b => pure b

/-! ### Tokens -/

def kind : Parser TokenKind := do return (← get).token.kind

def advance : Parser Unit := modify Cursor.next

def advanceIf (told : Bool) : Parser Unit := if told then advance else pure ()

/-- What a parser gives if it is told to run, or nothing. -/
def readIf (told : Bool) (p : Parser α) : Parser (List α) := do
  if told then return [← p] else return []

def position : Parser Nat := do return (← get).token.span.start

/-- The span from an offset to the end of the previous token. -/
def spanFrom (start : Nat) : Parser Span := do return ⟨start, (← get).prevStop⟩

def afterNewline : Parser Bool := do return (← get).token.afterNewline

def atPunct (text : String) : Parser Bool := do return (← kind) == .punct text

def atAnyPunct (texts : List String) : Parser Bool := do
  match ← kind with
  | .punct t => return texts.contains t
  | _ => return false

/-- Whether the current token is this word, spelt without escapes. -/
def atWord (name : String) : Parser Bool := do return (← kind) == .word name false

def atAnyWord (names : List String) : Parser Bool := do
  match ← kind with
  | .word n false => return names.contains n
  | _ => return false

def atDone : Parser Bool := do return (← kind) == .done

def eat (text : String) : Parser Bool := do
  if ← atPunct text then advance; return true
  else return false

def eatWord (name : String) : Parser Bool := do
  if ← atWord name then advance; return true
  else return false

def expect (text : String) : Parser Unit := do
  unless ← eat text do unexpected

def expectWord (name : String) : Parser Unit := do
  unless ← eatWord name do unexpected

def following : Parser Token := do return (← get).next.token

def followedByPunct (texts : List String) : Parser Bool := do
  match (← following).kind with
  | .punct t => return texts.contains t
  | _ => return false

/-- A tree for what was read since `start`. -/
def node (kind : Kind) (start : Nat) (parts : List Tree) : Parser Tree := do
  return .node kind (← spanFrom start) parts

/-- Ends a statement: at a semicolon, which is taken, in front of a closing
brace, at the end of the script, or at the end of a line. -/
def endStatement : Parser Unit := do
  if ← eat ";" then return
  if (← atPunct "\x7d") || (← atDone) || (← afterNewline) then return
  unexpected

/-- Passes tokens up to the end of a statement. Text that is no token stays for
the next statement. -/
def skipToEnd (limit : Nat) : Parser Unit :=
  loop limit (fun (_ : Unit) => do
    if (← attempt endStatement).isSome then return .done ()
    advance
    match ← kind with
    | .invalid _ => return .done ()
    | _ => return .more ()) ()

/-- Items with commas between them up to the closing punctuation, which is
taken. A comma may follow the last item. -/
def commaSeparated (limit : Nat) (close : String) (item : Parser α) : Parser (List α) :=
  loop limit (fun items => do
    if ← eat close then return .done items.reverse
    let a ← item
    if ← eat close then return .done (a :: items).reverse
    expect ","
    return .more (a :: items)) []

end Parser

end Recompose.Script
