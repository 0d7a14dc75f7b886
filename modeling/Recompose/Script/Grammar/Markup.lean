import Recompose.Script.Grammar.Types

/-!
# Markup elements

Elements inside a script. Names may hold dashes, quoted attributes have no
escapes, and text between elements is not made of tokens. The rule for an
element therefore stops on its last `>`, so that whoever reads on decides
whether text or a token follows.
-/

namespace Recompose.Script

open Recompose.Script.Parser

namespace Rules

def markupWord : Parser Unit := do
  let c ← get
  match c.token.kind with
  | .word _ _ =>
    let (stop, rest) := readMarkupName c.token.span.start c.here
    set (Cursor.start stop rest)
  | _ => unexpected

/-- The name of an element or attribute with its dots and colons; gives its
text. -/
def markupName (limit : Nat) : Parser (List Char × Span) := do
  let c ← get
  let start := c.token.span.start
  markupWord
  loop limit (fun (_ : Unit) => do
    if ← atAnyPunct [".", ":"] then
      advance
      markupWord
      return .more ()
    else return .done ()) ()
  let span ← spanFrom start
  return ((takeBytes? span.length c.here).getD [], span)

/-- An expression in braces, or nothing in braces. The cursor stays on the
closing brace. -/
def markupExpression (r : Rules) (c : Context) : Parser (List Tree) := do
  expect "\x7b"
  if ← atPunct "\x7d" then return []
  let _ ← eat "..."
  let inner ← r.expression c.bracketed
  unless ← atPunct "\x7d" do unexpected
  return [inner]

/-- A quoted value of an attribute; `rest` is what follows the quote. -/
def attributeString (quote : Char) (rest : List Char) : Parser (List Tree) := do
  let cur ← get
  match readMarkupString? quote (cur.token.span.start + 1) rest with
  | some (stop, after) =>
    set (Cursor.start stop after)
    return []
  | none => blame ⟨cur.token.span.start, cur.token.span.start + byteSize cur.here⟩

def attributeValue (r : Rules) (c : Context) : Parser (List Tree) := do
  match (← get).here with
  | '"' :: rest => attributeString '"' rest
  | '\'' :: rest => attributeString '\'' rest
  | _ =>
    if ← atPunct "\x7b" then
      let parts ← r.markupExpression c
      advance
      return parts
    else if ← atPunct "<" then
      let tree ← r.element c
      advance
      return [tree]
    else unexpected

/-- Attributes up to the end of the opening tag, where the cursor stays. -/
def markupAttributes (r : Rules) (c : Context) : Parser (List Tree) :=
  loop r.limit (fun (parts : List Tree) => do
    if ← atAnyPunct [">", "/"] then return .done parts
    if ← atPunct "\x7b" then
      let inner ← r.markupExpression c
      advance
      return .more (parts ++ inner)
    let _ ← markupName r.limit
    if ← eat "=" then return .more (parts ++ (← r.attributeValue c))
    else return .more parts) []

/-- Children after the `>` on which the cursor stands, up to the `</` of the
closing tag, on whose `<` the cursor stays. -/
def markupChildren (r : Rules) (c : Context) : Parser (List Tree) :=
  loop r.limit (fun (parts : List Tree) => do
    let cur ← get
    let (stop, rest) := readMarkupText cur.token.span.stop cur.after
    set (Cursor.start stop rest)
    if ← atPunct "\x7b" then return .more (parts ++ (← r.markupExpression c))
    unless ← atPunct "<" do unexpected
    if ← followedByPunct ["/"] then return .done parts
    return .more (parts ++ [← r.element c])) []

/-- An element or fragment. The cursor stays on its last `>`. -/
def markupElement (r : Rules) (c : Context) : Parser Tree := do
  let start ← position
  let finish : List Tree → Parser Tree := fun parts => do
    return .node .expression ⟨start, (← get).token.span.stop⟩ parts
  expect "<"
  if ← atPunct ">" then
    let children ← r.markupChildren c
    expect "<"
    expect "/"
    unless ← atPunct ">" do unexpected
    return ← finish children
  let (name, _) ← markupName r.limit
  let types ← readIf (r.dialect.typescript && (← atPunct "<")) (r.typeArguments c)
  let attributes ← r.markupAttributes c
  if ← eat "/" then
    unless ← atPunct ">" do unexpected
    return ← finish (attributes ++ types)
  let children ← r.markupChildren c
  expect "<"
  expect "/"
  if ← atPunct ">" then unexpected
  let (closing, span) ← markupName r.limit
  unless closing == name do blame span
  unless ← atPunct ">" do unexpected
  finish (attributes ++ types ++ children)

end Rules

end Recompose.Script
