import Recompose.Script.Grammar.Patterns

/-!
# Expressions

Operators of two operands make one flat tree of their operands in source
order, since nothing depends on their grouping.
-/

namespace Recompose.Script

open Recompose.Script.Parser

namespace Rules

/-! ## Arrow functions -/

/-- Type parameters of an arrow function, which must not look like markup. -/
def arrowGenerics (r : Rules) (c : Context) : Parser (List Tree) := do
  if r.dialect.typescript && (← atPunct "<") then
    let (params, distinct) ← r.typeParameters c
    if r.dialect.markup && !distinct then unexpected
    return [params]
  else return []

/-- What comes before the body of an arrow function: parameters, type
parameters and return type. -/
def arrowHead (r : Rules) (c : Context) : Parser (List Tree × List Tree × List Tree) := do
  let generics ← r.arrowGenerics c
  let params ← r.parameters { c with inGenerator := false } true
  let result ← r.returnType? c
  unless (← atPunct "=>") && !(← afterNewline) do unexpected
  advance
  return (params, generics, result)

def arrowBody (r : Rules) (c : Context) : Parser Tree := do
  let inner := { c with inGenerator := false }
  if ← atPunct "\x7b" then r.blockStatement {}
  else
    let body ← r.assignment inner
    return .node .exprBody body.span [body]

/-- An arrow function with parentheses around its parameters, if one starts
here. Inside a conditional, a return type could also be its other branch, so
there must be a colon left for that. -/
def arrowFunction? (r : Rules) (c : Context) (start : Nat) (isAsync : Bool) :
    Parser (Option Tree) := do
  let saved ← get
  match ← attempt (r.arrowHead c) with
  | none => return none
  | some (params, generics, result) =>
    let finish : Parser Tree := do
      let body ← r.arrowBody c
      node (.arrow isAsync) start (params ++ [body] ++ generics ++ result)
    if c.inConditional && !result.isEmpty then
      let tree? ← attempt do
        let tree ← finish
        unless ← atPunct ":" do unexpected
        pure tree
      match tree? with
      | some tree => return some tree
      | none =>
        set saved
        return none
    else return some (← finish)

/-- An arrow function of one bare name, which stands here. -/
def bareArrow (r : Rules) (c : Context) (start : Nat) (isAsync : Bool) : Parser Tree := do
  let name ← bindingName
  expect "=>"
  let body ← r.arrowBody c
  node (.arrow isAsync) start [.node (.param false) name.span [name], body]

/-- Whether the token after the current name is an arrow on the same line. -/
def nameBeforeArrow : Parser Bool := do
  match ← kind with
  | .word name _ =>
    let next ← following
    return !reservedWords.contains name && next.kind == .punct "=>" && !next.afterNewline
  | _ => return false

/-! ## Literals -/

/-- A method from its parameters on, of which the key has been read. -/
def methodRest (r : Rules) (start : Nat) (isAsync isGenerator : Bool) (key : Tree) :
    Parser Tree := do
  let parts ← r.functionRest isGenerator true
  node (.method isAsync isGenerator) start (key :: parts)

/-- A getter from its parameters on. The type is visited before the body. -/
def getterRest (r : Rules) (start : Nat) (key : Tree) : Parser Tree := do
  expect "("
  expect ")"
  let result ← r.returnType? {}
  let body ← r.blockStatement {}
  node .getter start (key :: result ++ [body])

/-- Whether the current word modifies the property that follows it. -/
def modifiesProperty (words : List String) : Parser Bool := do
  let next ← following
  let stands := match next.kind with
    | .punct t => t == "[" || t == "*"
    | .word _ _ | .string _ | .number _ | .bigint | .privateName => true
    | _ => false
  return (← atAnyWord words) && stands

/-- A property from behind its key on. -/
def propertyRest (r : Rules) (c : Context) (start : Nat) (key : Tree) : Parser Tree := do
  if (← atPunct "(") || (r.dialect.typescript && (← atPunct "<")) then
    return ← r.methodRest start false false key
  match key.kind with
  | .ident _ =>
    if ← eat ":" then
      let value ← r.assignment c
      node .keyValue start [key, value]
    else if ← eat "=" then
      let value ← r.assignment c
      node .defaulted start [key, value]
    else if ← atAnyPunct [",", "\x7d"] then node .shorthand start [key]
    else unexpected
  | _ =>
    expect ":"
    let value ← r.assignment c
    node .keyValue start [key, value]

def property (r : Rules) (c : Context) : Parser Tree := do
  let c := c.bracketed
  let start ← position
  if ← eat "..." then
    let inner ← r.assignment c
    return ← node .spread start [inner]
  if ← eat "*" then
    let key ← r.propertyKey c
    return ← r.methodRest start false true key
  if (← modifiesProperty ["async"]) && !(← following).afterNewline then
    advance
    let isGenerator ← eat "*"
    let key ← r.propertyKey c
    return ← r.methodRest start true isGenerator key
  if (← modifiesProperty ["get", "set"]) && !(← followedByPunct ["*"]) then
    let isGetter ← atWord "get"
    advance
    let key ← r.propertyKey c
    if isGetter then return ← r.getterRest start key
    let parts ← r.functionRest false true
    return ← node .setter start (key :: parts)
  let key ← r.propertyKey c
  r.propertyRest c start key

def item (r : Rules) (c : Context) : Parser Tree := do
  let start ← position
  if ← eat "..." then
    let inner ← r.assignment c.bracketed
    node .spread start [inner]
  else r.assignment c.bracketed

def arrayLiteral (r : Rules) (c : Context) : Parser Tree := do
  let start ← position
  expect "["
  let elements ← loop r.limit (fun items => do
    if ← eat "]" then return .done items.reverse
    if ← atPunct "," then
      let pos ← position
      advance
      return .more (Tree.leaf .hole ⟨pos, pos⟩ :: items)
    let item ← r.item c
    if ← eat "]" then return .done (item :: items).reverse
    expect ","
    return .more (item :: items)) []
  node .array start elements

def objectLiteral (r : Rules) (c : Context) : Parser Tree := do
  let start ← position
  expect "\x7b"
  let properties ← commaSeparated r.limit "\x7d" (r.property c)
  node .object start properties

def templateLiteral (r : Rules) (c : Context) : Parser Tree := do
  let start ← position
  let parts ← template r.limit (r.expression c.bracketed)
  node .expression start parts

def regexLiteral : Parser Tree := do
  let cur ← get
  let start := cur.token.span.start
  match readRegex? false false (start + 1) (cur.here.drop 1) with
  | some (stop, rest) =>
    set (Cursor.start stop rest)
    return .leaf .regex ⟨start, stop⟩
  | none => blame ⟨start, start + byteSize (cur.here.takeWhile (!isLineEnd ·))⟩

def arguments (r : Rules) (c : Context) : Parser (List Tree) := do
  expect "("
  commaSeparated r.limit ")" (r.item c)

def functionFrom (r : Rules) (start : Nat) (isAsync nameNeeded bodyNeeded : Bool) :
    Parser Tree := do
  expectWord "function"
  let isGenerator ← eat "*"
  let name ← readIf (nameNeeded || !(← atAnyPunct ["(", "<"])) bindingName
  let parts ← r.functionRest isGenerator bodyNeeded
  node (.function isAsync isGenerator) start (name ++ parts)

/-! ## Classes -/

def memberModifiers (r : Rules) : List String :=
  if r.dialect.typescript then
    ["static", "public", "private", "protected", "readonly", "abstract", "declare", "override",
     "accessor"]
  else ["static"]

/-- Whether the current word modifies what follows, rather than naming it. -/
def modifiesMember (words : List String) : Parser Bool := do
  let next ← following
  let names := match next.kind with
    | .punct t => t != "[" && t != "*" && t != "\x7b"
    | .done => true
    | _ => false
  return (← atAnyWord words) && !names

/-- The name of a member, which may be private. -/
def accessedName : Parser Tree := do
  let span := (← get).token.span
  match ← kind with
  | .privateName =>
    advance
    return .leaf .privateName span
  | _ => Parser.propertyName

def memberKey (r : Rules) (c : Context) : Parser Tree := do
  match ← kind with
  | .privateName => accessedName
  | _ => r.propertyKey c

/-- Skips one of the words, if it modifies a member. -/
def skipMemberModifier (words : List String) : Parser (Step Unit Unit) := do
  if (← modifiesMember words) && !(← followedByPunct ["\x7b"]) then
    advance
    return .more ()
  else return .done ()

def skipMemberModifiers (r : Rules) : Parser Unit :=
  loop r.limit (fun (_ : Unit) => skipMemberModifier r.memberModifiers) ()

/-- A class member from its key on. A method may be a generator; what has other
`marks` must be a method. -/
def memberRest (r : Rules) (c : Context) (start : Nat) (isGenerator marks : Bool) :
    Parser Tree := do
  let key ← r.memberKey c
  let _ ← r.eatMark "?"
  if (← atPunct "(") || (r.dialect.typescript && (← atPunct "<")) then
    let parts ← r.functionRest isGenerator false
    return ← node .expression start (key :: parts)
  if marks || isGenerator then unexpected
  let _ ← r.eatMark "!"
  let ascription ← r.typeAscription? c
  let value ← readIf (← eat "=") (r.assignment {})
  endStatement
  node .expression start (key :: value ++ ascription)

/-- A class member from the word on that makes it an accessor. -/
def accessorMember (r : Rules) (c : Context) (start : Nat) (isAsync isGenerator : Bool) :
    Parser Tree := do
  let isAccessor := (← modifiesMember ["get", "set"]) && !(← followedByPunct ["\x7b", "*"])
  advanceIf isAccessor
  r.memberRest c start isGenerator (isAsync || isAccessor)

/-- A class member from the words on that make it a method. -/
def markedMember (r : Rules) (c : Context) (start : Nat) : Parser Tree := do
  let isAsync := (← modifiesMember ["async"]) && !(← followedByPunct ["\x7b"]) &&
    !(← following).afterNewline
  advanceIf isAsync
  let isGenerator ← eat "*"
  r.accessorMember c start isAsync isGenerator

def classMember (r : Rules) (c : Context) : Parser Tree := do
  let start ← position
  if (← atWord "static") && (← followedByPunct ["\x7b"]) then
    advance
    return ← r.blockStatement {}
  r.skipMemberModifiers
  if r.dialect.typescript && (← atPunct "[") then
    match ← attempt (r.indexSignature c) with
    | some index =>
      endStatement
      return index
    | none => r.markedMember c start
  else r.markedMember c start

def className (r : Rules) (nameNeeded : Bool) : Parser (List Tree) := do
  let starts := (← atPunct "\x7b") || (← atPunct "<") || (← atWord "extends") ||
    (r.dialect.typescript && (← atWord "implements"))
  readIf (nameNeeded || !starts) bindingName

def classBase (r : Rules) (c : Context) : Parser (List Tree) := do
  if ← eatWord "extends" then
    let base ← r.operand c
    let types ← readIf (r.dialect.typescript && (← atPunct "<")) (r.typeArguments c)
    return base :: types
  else return []

def typesAfter (r : Rules) (c : Context) (word : String) : Parser (List Tree) := do
  if ← eatWord word then
    loop r.limit (fun items => do
      let t ← r.typeExpr c
      if ← eat "," then return .more (t :: items)
      else return .done (t :: items).reverse) []
  else return []

def classInterfaces (r : Rules) (c : Context) : Parser (List Tree) :=
  if r.dialect.typescript then r.typesAfter c "implements" else pure []

/-- A class from its keyword on. Its members are visited first, then what it
extends. -/
def classFrom (r : Rules) (c : Context) (start : Nat) (nameNeeded : Bool) : Parser Tree := do
  expectWord "class"
  let name ← r.className nameNeeded
  let generics ← r.optionalTypeParameters c
  let base ← r.classBase c
  let interfaces ← r.classInterfaces c
  expect "\x7b"
  let members ← loop r.limit (fun items => do
    if ← eat "\x7d" then return .done items.reverse
    if ← eat ";" then return .more items
    return .more ((← r.classMember c) :: items)) []
  node .classDef start (name ++ members ++ (base ++ interfaces) ++ generics)

/-! ## Operands -/

def primary (r : Rules) (c : Context) : Parser Tree := do
  let span := (← get).token.span
  let start := span.start
  match ← kind with
  | .number text => advance; return .leaf (.number text) span
  | .bigint => advance; return .leaf .bigint span
  | .string value => advance; return .leaf (.string value) span
  | .privateName =>
    advance
    unless ← atWord "in" do unexpected
    return .leaf .privateName span
  | .punct "(" =>
    advance
    let inner ← r.expression c.bracketed
    expect ")"
    node .paren start [inner]
  | .punct "[" => r.arrayLiteral c
  | .punct "\x7b" => r.objectLiteral c
  | .punct "`" => r.templateLiteral c
  | .punct "/" | .punct "/=" => regexLiteral
  | .punct "<" =>
    if r.dialect.markup then
      let tree ← r.element c
      advance
      return tree
    else unexpected
  | .word "function" false => r.functionFrom start false false true
  | .word "class" false => r.classFrom c start false
  | .word "this" false => advance; return .leaf .thisExpr span
  | .word "null" false => advance; return .leaf .null span
  | .word "true" false => advance; return .leaf (.boolean true) span
  | .word "false" false => advance; return .leaf (.boolean false) span
  | .word "async" false =>
    let next ← following
    advance
    if next.kind == .word "function" false && !next.afterNewline then
      r.functionFrom start true false true
    else return .leaf (.ident "async") span
  | .word name _ =>
    if reservedWords.contains name || strictWords.contains name then unexpected
    advance
    return .leaf (.ident name) span
  | _ => unexpected

/-- What `import` or `super` starts. -/
def keywordOperand (r : Rules) (c : Context) (name : String) : Parser Tree := do
  let span := (← get).token.span
  advance
  let keyword := Tree.leaf (.keyword name) span
  if ← atPunct "(" then
    let args ← r.arguments c
    node .call span.start (keyword :: args)
  else if ← eat "." then
    let _ ← accessedName
    node .expression span.start []
  else if name == "super" then
    expect "["
    let key ← r.expression c.bracketed
    expect "]"
    node .expression span.start [key]
  else unexpected

/-- Whether type arguments that end here were no comparison: what follows can
go on after them, but starts no operand. -/
def canFollowTypeArguments : Parser Bool := do
  if ← afterNewline then return true
  match ← kind with
  | .punct t =>
    let operandStarts := ["(", "[", "\x7b", "<", "+", "-", "!", "~", "/", "/=", "++", "--", "`",
      "@", "#", "..."]
    return !operandStarts.contains t
  | .done => return true
  | .word w false => return ["as", "satisfies", "in", "instanceof", "of"].contains w
  | _ => return false

/-- Where a chain of accesses and calls stands: its tree so far, and whether it
has an optional link. From there on, accesses and calls are wrapped. -/
abbrev Chain := Tree × Bool

def access (start : Nat) (tree : Tree) (optional : Bool) (key : Tree) :
    Parser (Step Chain Tree) := do
  let inner ← node .member start [tree, key]
  if optional then return .more (← node .expression start [inner], true)
  else return .more (inner, false)

def call (start : Nat) (tree : Tree) (optional : Bool) (args : List Tree) :
    Parser (Step Chain Tree) := do
  let kind := if optional then Kind.expression else Kind.call
  return .more (← node kind start (tree :: args), optional)

def computedKey (r : Rules) (c : Context) : Parser Tree := do
  let pos ← position
  expect "["
  let key ← r.expression c.bracketed
  expect "]"
  node .computedKey pos [key]

def optionalLink (r : Rules) (c : Context) (start : Nat) (tree : Tree) :
    Parser (Step Chain Tree) := do
  match ← kind with
  | .punct "(" => call start tree true (← r.arguments c)
  | .punct "[" => access start tree true (← r.computedKey c)
  | .punct "<" =>
    if r.dialect.typescript then
      let types ← r.typeArguments c
      call start tree true ((← r.arguments c) ++ [types])
    else unexpected
  | .punct "`" => unexpected
  | _ => access start tree true (← accessedName)

/-- Goes on with type arguments, if that is what stands here. -/
def typeArgumentsLink (r : Rules) (c : Context) (start : Nat) (calls : Bool) (tree : Tree)
    (chained : Bool) : Parser (Step Chain Tree) := do
  let saved ← get
  match ← attempt (r.typeArguments c) with
  | none => return .done tree
  | some types =>
    if calls && (← atPunct "(") then call start tree chained ((← r.arguments c) ++ [types])
    else if ← atPunct "`" then
      let quasi ← r.templateLiteral c
      return .more (← node .expression start [tree, types, quasi], false)
    else if !calls && (← atPunct "(") then
      -- Type arguments of `new` stay with its callee.
      return .done (← node .expression start [tree, types])
    else if ← canFollowTypeArguments then
      return .more (← node .expression start [tree, types], false)
    else
      set saved
      return .done tree

def chainStep (r : Rules) (c : Context) (start : Nat) (calls : Bool) (state : Chain) :
    Parser (Step Chain Tree) := do
  let (tree, chained) := state
  match ← kind with
  | .punct "." =>
    advance
    access start tree chained (← accessedName)
  | .punct "?." =>
    unless calls do unexpected
    advance
    r.optionalLink c start tree
  | .punct "[" => access start tree chained (← r.computedKey c)
  | .punct "(" =>
    if calls then call start tree chained (← r.arguments c) else return .done tree
  | .punct "`" =>
    let quasi ← r.templateLiteral c
    return .more (← node .expression start [tree, quasi], false)
  | .punct "!" =>
    if r.dialect.typescript && !(← afterNewline) then
      advance
      return .more (← node .nonNull start [tree], chained)
    else return .done tree
  | .punct "<" =>
    if r.dialect.typescript then r.typeArgumentsLink c start calls tree chained
    else return .done tree
  | _ => return .done tree

def argumentsHere (r : Rules) (c : Context) : Parser (List Tree) := do
  if ← atPunct "(" then r.arguments c else return []

/-- An expression built with `new`. -/
def newExpression (r : Rules) (c : Context) : Parser Tree := do
  let start ← position
  expectWord "new"
  if ← eat "." then
    let _ ← Parser.propertyName
    return ← node .expression start []
  let callee ← r.constructed c
  let args ← r.argumentsHere c
  node .expression start (callee :: args)

def chainHead (r : Rules) (c : Context) : Parser Tree := do
  if ← atWord "new" then r.newExpression c
  else if ← atWord "import" then r.keywordOperand c "import"
  else if ← atWord "super" then r.keywordOperand c "super"
  else r.primary c

def chain (r : Rules) (c : Context) : Parser Tree := do
  let start ← position
  let head ← r.chainHead c
  loop r.limit (r.chainStep c start true) (head, false)

/-- Accesses, but no calls, on an operand: what `new` constructs. -/
def callee (r : Rules) (c : Context) : Parser Tree := do
  let start ← position
  let head ← r.chainHead c
  loop r.limit (r.chainStep c start false) (head, false)

def prefixed (r : Rules) (c : Context) : Parser Tree := do
  let start ← position
  if ← atAnyPunct ["!", "~", "+", "-"] then
    advance
    let inner ← r.operand c
    return ← node .expression start [inner]
  if ← atAnyWord ["typeof", "void", "delete", "await"] then
    advance
    let inner ← r.operand c
    return ← node .expression start [inner]
  if ← atAnyPunct ["++", "--"] then
    advance
    let inner ← r.operand c
    return ← node .update start [inner]
  if r.dialect.typescript && !r.dialect.markup && (← atPunct "<") then
    advance
    let t ← readIf (!(← eatWord "const")) (r.typeExpr {})
    expect ">"
    let inner ← r.operand c
    return ← node .expression start (inner :: t)
  let tree ← r.chain c
  if (← atAnyPunct ["++", "--"]) && !(← afterNewline) then
    advance
    node .update start [tree]
  else return tree

/-! ## Operators -/

def infixOperators : List String :=
  ["||", "&&", "??", "|", "^", "&", "==", "!=", "===", "!==", "<", "<=", "<<", "+", "-", "*",
   "/", "%", "**", ">", ">=", ">>", ">>>"]

def assignOperators : List String :=
  ["=", "+=", "-=", "*=", "/=", "%=", "**=", "<<=", "&=", "|=", "^=", "&&=", "||=", "??=",
   ">>=", ">>>="]

/-- The operator at the cursor and how far it reaches: an operator that starts
with `>` is put together here. -/
def operatorHere : Parser (Option String) := do
  let c ← get
  match c.token.kind with
  | .punct ">" => return firstMatch? greaterOperators c.here
  | .punct t => return some t
  | _ => return none

def skipOperator (text : String) : Parser Unit := do
  let c ← get
  set (Cursor.start (c.token.span.start + text.length) (c.here.drop text.length))

/-- What operands that were read last first make up. -/
def joined (start : Nat) (operands : List Tree) : Parser Tree :=
  match operands with
  | [t] => pure t
  | ts => node .expression start ts.reverse

def operation (r : Rules) (c : Context) : Parser Tree := do
  let start ← position
  let first ← r.prefixed c
  loop r.limit (fun (operands : List Tree) => do
    match ← operatorHere with
    | some op =>
      if infixOperators.contains op then
        skipOperator op
        return .more ((← r.prefixed c) :: operands)
      else return .done (← joined start operands)
    | none =>
      if (← atWord "instanceof") || (c.allowIn && (← atWord "in")) then
        advance
        return .more ((← r.prefixed c) :: operands)
      else if r.dialect.typescript && (← atAnyWord ["as", "satisfies"]) && !(← afterNewline) then
        let inner ← joined start operands
        advance
        if ← eatWord "const" then return .more [← node .constCast start [inner]]
        return .more [← node .cast start [inner, ← r.typeExpr {}]]
      else return .done (← joined start operands)) [first]

def conditional (r : Rules) (c : Context) : Parser Tree := do
  let start ← position
  let test ← r.operation c
  if ← eat "?" then
    let yes ← r.assignment { c with allowIn := true, inConditional := true }
    expect ":"
    let no ← r.assignment c
    node .expression start [test, yes, no]
  else return test

def yieldExpression (r : Rules) (c : Context) : Parser Tree := do
  let start ← position
  advance
  if ← afterNewline then return ← node .expression start []
  let delegates ← eat "*"
  if !delegates && ((← atAnyPunct [")", "]", "\x7d", ",", ";", ":"]) || (← atDone) ||
      (← atWord "in") || (← atWord "of")) then
    node .expression start []
  else
    let inner ← r.assignment c
    node .expression start [inner]

/-- An arrow function without the word `async`, if one starts here. -/
def plainArrow? (r : Rules) (c : Context) (start : Nat) (isAsync : Bool) :
    Parser (Option Tree) := do
  if ← nameBeforeArrow then return some (← r.bareArrow c start isAsync)
  if (← atPunct "(") || (r.dialect.typescript && (← atPunct "<")) then
    r.arrowFunction? c start isAsync
  else return none

def arrow? (r : Rules) (c : Context) : Parser (Option Tree) := do
  let saved ← get
  let start := saved.token.span.start
  match ← r.plainArrow? c start false with
  | some tree => return some tree
  | none =>
    if (← atWord "async") && !(← following).afterNewline then
      advance
      match ← r.plainArrow? c start true with
      | some tree => return some tree
      | none =>
        set saved
        return none
    else return none

def assignmentExpression (r : Rules) (c : Context) : Parser Tree := do
  let start ← position
  if c.inGenerator && (← atWord "yield") then return ← r.yieldExpression c
  if let some tree ← r.arrow? c then return tree
  let left ← r.conditional c
  match ← operatorHere with
  | some op =>
    if assignOperators.contains op then
      unless isAssignable left do blame left.span
      skipOperator op
      let right ← r.assignment c
      let target := if op == "=" then assignmentTarget left else left
      node .assign start [target, right]
    else return left
  | none => return left

end Rules

end Recompose.Script
