import Recompose.Script.Grammar.Expressions

/-!
# Statements

Statements of a script, the declarations of types among them.
-/

namespace Recompose.Script

open Recompose.Script.Parser

namespace Rules

/-! ## Variables -/

/-- Skips the mark of a variable that is assigned elsewhere. -/
def skipAssignedMark (r : Rules) : Parser Unit := do
  advanceIf (r.dialect.typescript && (← atPunct "!") && (← followedByPunct [":"]))

def declarator (r : Rules) (c : Context) : Parser Tree := do
  let start ← position
  let pattern ← r.pattern c
  r.skipAssignedMark
  let ascription ← r.typeAscription? c
  let value ← readIf (← eat "=") (r.assignment c)
  node .declarator start (pattern.extend ascription :: value)

def declaratorStep (r : Rules) (c : Context) (items : List Tree) :
    Parser (Step (List Tree) (List Tree)) := do
  let item ← r.declarator c
  if ← eat "," then return .more (item :: items)
  else return .done (item :: items).reverse

/-- The variables of a declaration. A lenient parser takes a semicolon in the place
of a variable for the end. -/
def declarators (r : Rules) (c : Context) : Parser (List Tree) :=
  loop r.limit (fun items => do
    if r.dialect.lenient then
      if ← atPunct ";" then return .done items.reverse
    r.declaratorStep c items) []

/-- Ends a declaration. A lenient parser passes over what stands in front of the
end, an expression first. -/
def endDeclaration (r : Rules) (c : Context) : Parser Unit := do
  if r.dialect.lenient then
    if (← attempt endStatement).isNone then
      tolerate (r.expression c)
      skipToEnd r.limit
  else endStatement

/-- How the word at the cursor declares variables, if it does. A `let` does
only in front of a name or pattern. -/
def bindingMode? : Parser (Option BindingMode) := do
  if ← atWord "const" then return some .viaConst
  if ← atWord "var" then return some .viaVar
  if ← atWord "let" then
    match (← following).kind with
    | .word "in" _ | .word "of" _ | .word "instanceof" _ => return none
    | .word _ _ | .punct "[" | .punct "\x7b" => return some .viaLet
    | _ => return none
  return none

/-! ## Loops -/

/-- What a loop assigns to, when it is no declaration. -/
def loopTarget (t : Tree) : Tree := asPattern t

def loopSource (r : Rules) (c : Context) : Parser Tree := do
  if ← eatWord "of" then r.assignment c
  else
    expectWord "in"
    r.expression c

def collectionLoop (r : Rules) (c : Context) (start : Nat) (head : Tree) : Parser Tree := do
  let source ← r.loopSource c
  expect ")"
  let body ← r.statement c
  node .forStmt start [head, source, body]

def countingLoop (r : Rules) (c : Context) (start : Nat) (init : List Tree) : Parser Tree := do
  expect ";"
  let test ← readIf (!(← atPunct ";")) (r.expression c)
  expect ";"
  let update ← readIf (!(← atPunct ")")) (r.expression c)
  expect ")"
  let body ← r.statement c
  node .forStmt start (init ++ test ++ update ++ [body])

def forStatement (r : Rules) (c : Context) : Parser Tree := do
  let c := { c with allowIn := true }
  let noIn := { c with allowIn := false }
  let start ← position
  expectWord "for"
  let _ ← eatWord "await"
  expect "("
  if ← atPunct ";" then return ← r.countingLoop c start []
  let pos ← position
  match ← bindingMode? with
  | some mode =>
    advance
    let items ← r.declarators noIn
    let head ← node (.declaration mode) pos items
    if (← atWord "of") || (← atWord "in") then r.collectionLoop c start head
    else r.countingLoop c start [head]
  | none =>
    let head ← r.expression noIn
    if (← atWord "of") || (← atWord "in") then r.collectionLoop c start (loopTarget head)
    else r.countingLoop c start [head]

/-! ## Branches -/

def parenthesized (r : Rules) (c : Context) : Parser Tree := do
  expect "("
  let inner ← r.expression c.bracketed
  expect ")"
  return inner

def ifStatement (r : Rules) (c : Context) : Parser Tree := do
  let start ← position
  advance
  let test ← r.parenthesized c
  let yes ← r.statement c
  let no ← readIf (← eatWord "else") (r.statement c)
  node .statement start (test :: yes :: no)

def whileStatement (r : Rules) (c : Context) : Parser Tree := do
  let start ← position
  advance
  let test ← r.parenthesized c
  let body ← r.statement c
  node .statement start [test, body]

/-- A loop that tests last. The test is visited first. -/
def doStatement (r : Rules) (c : Context) : Parser Tree := do
  let start ← position
  advance
  let body ← r.statement c
  expectWord "while"
  let test ← r.parenthesized c
  let _ ← eat ";"
  node .statement start [test, body]

def switchStatement (r : Rules) (c : Context) : Parser Tree := do
  let start ← position
  advance
  let subject ← r.parenthesized c
  expect "\x7b"
  let cases ← loop r.limit (fun (state : List Tree × Bool) => do
    let (items, inCase) := state
    if ← eat "\x7d" then return .done items.reverse
    let pos ← position
    if ← eatWord "case" then
      let test ← r.expression c.bracketed
      expect ":"
      return .more ((← node .statement pos [test]) :: items, true)
    else if ← eatWord "default" then
      expect ":"
      return .more (items, true)
    else if !inCase then unexpected
    else return .more ((← r.statement c) :: items, true)) ([], false)
  node .switchStmt start (subject :: cases)

/-- What a handler binds, from behind its parenthesis on. -/
def caughtPattern (r : Rules) (c : Context) : Parser Tree := do
  let pattern ← r.pattern c
  let ascription ← r.typeAscription? c
  expect ")"
  return pattern.extend ascription

/-- A handler behind its word. -/
def handlerParts (r : Rules) (c : Context) : Parser (List Tree) := do
  let param ← readIf (← eat "(") (r.caughtPattern c)
  let body ← r.blockStatement c
  return param ++ [body]

def catchClause (r : Rules) (c : Context) : Parser Tree := do
  let start ← position
  advance
  let parts ← r.handlerParts c
  node .catchClause start parts

def finalizer (r : Rules) (c : Context) : Parser (List Tree) := do
  readIf (← eatWord "finally") (r.blockStatement c)

/-- A statement with `try`. A lenient parser needs nothing behind its block. -/
def tryStatement (r : Rules) (c : Context) : Parser Tree := do
  let start ← position
  advance
  let block ← r.blockStatement c
  let handler ← readIf (← atWord "catch") (r.catchClause c)
  let finalizer ← r.finalizer c
  if handler.isEmpty && finalizer.isEmpty && !r.dialect.lenient then unexpected
  node .statement start (block :: handler ++ finalizer)

/-! ## Jumps -/

def returnStatement (r : Rules) (c : Context) : Parser Tree := do
  let start ← position
  advance
  let ends := (← atAnyPunct [";", "\x7d"]) || (← atDone) || (← afterNewline)
  let value ← readIf (!ends) (r.expression c.bracketed)
  endStatement
  node .returnStmt start value

def throwStatement (r : Rules) (c : Context) : Parser Tree := do
  let start ← position
  advance
  if ← afterNewline then unexpected
  let value ← r.expression c.bracketed
  endStatement
  node .statement start [value]

/-- Whether the current token is a word on the line of the last one. -/
def atLabel : Parser Bool := do
  match ← kind with
  | .word _ _ => return !(← afterNewline)
  | _ => return false

def jumpStatement : Parser Tree := do
  let start ← position
  advance
  advanceIf (← atLabel)
  endStatement
  node .statement start []

/-! ## Declarations of types -/

def interfaceRest (r : Rules) (c : Context) (start : Nat) : Parser Tree := do
  let _ ← bindingName
  let generics ← r.optionalTypeParameters c
  let bases ← r.typesAfter c "extends"
  let body ← r.objectType c
  node .statement start (generics ++ bases ++ [body])

def aliasRest (r : Rules) (c : Context) (start : Nat) : Parser Tree := do
  let _ ← bindingName
  let generics ← r.optionalTypeParameters c
  expect "="
  let t ← r.typeExpr c
  endStatement
  node .statement start (generics ++ [t])

def enumMember (r : Rules) (c : Context) : Parser Tree := do
  let start ← position
  let key ← r.propertyKey c
  let value ← readIf (← eat "=") (r.assignment {})
  node .statement start (key :: value)

def enumRest (r : Rules) (c : Context) (start : Nat) : Parser Tree := do
  let _ ← bindingName
  expect "\x7b"
  let members ← commaSeparated r.limit "\x7d" (r.enumMember c)
  node .statement start members

def namespaceName (r : Rules) : Parser Unit := do
  match ← kind with
  | .string _ => advance
  | _ =>
    let _ ← bindingName
    dottedNames r.limit

def namespaceRest (r : Rules) (c : Context) (start : Nat) : Parser Tree := do
  r.namespaceName
  if ← atPunct "\x7b" then
    let body ← r.blockStatement c
    node .statement start [body]
  else
    endStatement
    node .statement start []

def followedByName : Parser Bool := do
  let next ← following
  match next.kind with
  | .word _ _ => return !next.afterNewline
  | _ => return false

def followedByString : Parser Bool := do
  let next ← following
  match next.kind with
  | .string _ => return !next.afterNewline
  | _ => return false

def typeDeclaration? (r : Rules) (c : Context) : Parser (Option Tree) := do
  if !r.dialect.typescript then return none
  let start ← position
  let named ← followedByName
  if (← atWord "interface") && named then
    advance
    return some (← r.interfaceRest c start)
  if (← atWord "type") && named then
    advance
    return some (← r.aliasRest c start)
  if (← atWord "enum") && named then
    advance
    return some (← r.enumRest c start)
  if (← atWord "const") && (← following).kind == .word "enum" false then
    advance
    advance
    return some (← r.enumRest c start)
  if (← atWord "abstract") && (← following).kind == .word "class" false then
    advance
    return some (← r.classFrom c start true)
  if (← atWord "namespace") && named then
    advance
    return some (← r.namespaceRest c start)
  if (← atWord "module") && (named || (← followedByString)) then
    advance
    return some (← r.namespaceRest c start)
  if (← atWord "global") && (← followedByPunct ["\x7b"]) then
    advance
    let body ← r.blockStatement c
    return some (← node .statement start [body])
  if (← atWord "declare") && named then
    advance
    let inner ← r.statement c
    -- A declared variable is a variable declaration that starts earlier.
    return some (inner.startingAt start)
  return none

/-! ## Statements -/

/-- A statement that starts with a keyword of its own, if one does here. -/
def keywordStatement? (r : Rules) (c : Context) : Parser (Option Tree) := do
  match ← kind with
  | .word "if" false => return some (← r.ifStatement c)
  | .word "for" false => return some (← r.forStatement c)
  | .word "while" false | .word "with" false => return some (← r.whileStatement c)
  | .word "do" false => return some (← r.doStatement c)
  | .word "return" false => return some (← r.returnStatement c)
  | .word "throw" false => return some (← r.throwStatement c)
  | .word "break" false | .word "continue" false | .word "debugger" false =>
    return some (← jumpStatement)
  | .word "switch" false => return some (← r.switchStatement c)
  | .word "try" false => return some (← r.tryStatement c)
  | _ => return none

/-- Whether `async` stands here and makes a function of what follows. -/
def startsAsyncFunction : Parser Bool := do
  let next ← following
  return (← atWord "async") && next.kind == .word "function" false && !next.afterNewline

def declaration? (r : Rules) (c : Context) : Parser (Option Tree) := do
  let start ← position
  if ← atWord "function" then return some (← r.functionFrom start false true false)
  if ← atWord "class" then return some (← r.classFrom c start true)
  if ← startsAsyncFunction then
    advance
    return some (← r.functionFrom start true true false)
  return none

/-- Whether the current word labels the statement that follows. -/
def labels : Parser Bool := do
  match ← kind with
  | .word name _ => return !reservedWords.contains name && (← followedByPunct [":"])
  | _ => return false

/-- The infix operator behind an expression that takes none, on the same line. -/
def strayOperator? : Parser (Option String) := do
  let op? ← operatorHere
  if ← afterNewline then return none
  return op?.filter (infixOperators.contains ·)

/-- Ends a statement behind its expression. A lenient parser also ends it behind a
stray operator and the operands of that. -/
def endExpression (r : Rules) (c : Context) (start : Nat) (value : Tree) : Parser Tree := do
  if r.dialect.lenient then
    if let some op ← strayOperator? then
      skipOperator op
      let operands ← r.operation c
      let whole ← node .expression start [value, operands]
      return ← node .exprStmt start [whole]
  endStatement
  node .exprStmt start [value]

def expressionStatement (r : Rules) (c : Context) : Parser Tree := do
  let start ← position
  if ← labels then
    advance
    advance
    let body ← r.statement c
    return ← node .statement start [body]
  let c := { c with allowIn := true }
  let value ← r.expression c
  r.endExpression c start value

/-- Passes over handlers that no block stands in front of. -/
def strayHandlers? (r : Rules) (c : Context) : Parser (Option Tree) := do
  let span := (← get).token.span
  if ← eatWord "catch" then
    tolerate (r.handlerParts c)
    tolerate (r.finalizer c)
    return some (.leaf .exprStmt span)
  if ← eatWord "finally" then
    tolerate (r.blockStatement c)
    return some (.leaf .exprStmt span)
  return none

/-- A declaration of variables, or a statement that starts with an expression. -/
def plainStatement (r : Rules) (c : Context) (start : Nat) : Parser Tree := do
  if let some mode ← bindingMode? then
    advance
    let items ← r.declarators c
    r.endDeclaration c
    return ← node (.declaration mode) start items
  r.expressionStatement c

/-- Any statement but those that stand only at the top of a module. -/
def anyStatement (r : Rules) (c : Context) : Parser Tree := do
  let c := c.bracketed
  let start ← position
  if ← atPunct "\x7b" then return ← r.blockStatement c
  if ← eat ";" then return ← node .statement start []
  if let some tree ← r.keywordStatement? c then return tree
  if let some tree ← r.typeDeclaration? c then return tree
  if let some tree ← r.declaration? c then return tree
  if r.dialect.lenient then
    if let some tree ← r.strayHandlers? c then return tree
  r.plainStatement c start

end Rules

end Recompose.Script
