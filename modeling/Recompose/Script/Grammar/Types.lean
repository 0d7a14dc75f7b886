import Recompose.Script.Grammar

/-!
# Types

The grammar of types. A type keeps no more than its span and its parts; the
parts are walked for the expressions inside them.
-/

namespace Recompose.Script

open Recompose.Script.Parser

namespace Rules

/-! ## Type arguments and parameters -/

def typeArguments (r : Rules) (c : Context) : Parser Tree := do
  let start ← position
  expect "<"
  let args ← commaSeparated r.limit ">" (r.typeExpr { c with allowConditionalType := true })
  if args.isEmpty then unexpected
  node .type start args

/-- Type parameters in angle brackets. The flag tells whether they could not
be taken for a markup element. -/
def typeParameters (r : Rules) (c : Context) : Parser (Tree × Bool) := do
  let start ← position
  expect "<"
  let (params, distinct) ← loop r.limit (fun (state : List Tree × Bool) => do
    let (items, distinct) := state
    if ← eat ">" then return .done (items.reverse, distinct)
    let begin ← position
    let _ ← eatWord "const"
    advanceIf ((← atAnyWord ["in", "out"]) && !(← followedByPunct [",", ">", "="]))
    advanceIf ((← atAnyWord ["in", "out"]) && !(← followedByPunct [",", ">", "="]))
    let _ ← bindingName
    let bound ← readIf (← eatWord "extends") (r.typeExpr c)
    let default ← readIf (← eat "=") (r.typeExpr c)
    let item ← node .type begin (bound ++ default)
    if ← eat ">" then return .done ((item :: items).reverse, distinct || !bound.isEmpty)
    expect ","
    return .more (item :: items, true)) ([], false)
  if params.isEmpty then unexpected
  return (← node .type start params, distinct)

def optionalTypeParameters (r : Rules) (c : Context) : Parser (List Tree) := do
  if r.dialect.typescript && (← atPunct "<") then
    return [(← r.typeParameters c).1]
  else return []

/-- Takes punctuation that only types make use of. -/
def eatMark (r : Rules) (text : String) : Parser Bool :=
  if r.dialect.typescript then eat text else pure false

def typeAscription? (r : Rules) (c : Context) : Parser (List Tree) := do
  if ← r.eatMark ":" then
    return [← r.typeExpr { c with allowConditionalType := true }]
  else return []

/-- A type that may say something about a parameter: `x is T`, `asserts x`. -/
def predicateType (r : Rules) (c : Context) : Parser Tree := do
  let start ← position
  let isName : TokenKind → Bool := fun
    | .word _ _ => true
    | _ => false
  let next ← following
  if (← atWord "asserts") && isName next.kind && !next.afterNewline &&
      next.kind != .word "is" false then
    advance
    let _ ← propertyName
    if (← atWord "is") && !(← afterNewline) then
      advance
      let t ← r.typeExpr c
      node .type start [t]
    else node .type start []
  else if isName (← kind) && next.kind == .word "is" false && !next.afterNewline then
    advance
    advance
    let t ← r.typeExpr c
    node .type start [t]
  else r.typeExpr c

def returnType? (r : Rules) (c : Context) : Parser (List Tree) := do
  if ← r.eatMark ":" then
    let t ← r.predicateType { c with allowConditionalType := true }
    return [.node .returnType t.span [t]]
  else return []

/-! ## Members of object types -/

/-- What a parameter binds, which may be `this`. -/
def parameterBinding (r : Rules) (c : Context) (allowThis : Bool) : Parser Tree := do
  if allowThis && (← atWord "this") then propertyName else r.pattern c

def typeLevelParams (r : Rules) (c : Context) : Parser (List Tree) := do
  expect "("
  commaSeparated r.limit ")" do
    let start ← position
    let _ ← eat "..."
    let binding ← r.parameterBinding c true
    let _ ← eat "?"
    let ascription ← r.typeAscription? c
    node .type start (binding :: ascription)

def signature (r : Rules) (c : Context) : Parser (List Tree) := do
  let generics ← r.optionalTypeParameters c
  let params ← r.typeLevelParams c
  let result ← r.returnType? c
  return params ++ generics ++ result

def endTypeMember : Parser Unit := do
  if ← eat ";" then return
  if ← eat "," then return
  if (← atPunct "\x7d") || (← afterNewline) then return
  unexpected

/-- The key of a member: a word, a literal or an expression in brackets. -/
def typeMemberKey (r : Rules) (c : Context) : Parser Tree := do
  let start ← position
  match ← kind with
  | .word _ _ => propertyName
  | .string _ | .number _ | .bigint | .privateName =>
    advance
    node .type start []
  | .punct "[" =>
    advance
    let key ← r.assignment c.bracketed
    expect "]"
    node .computedKey start [key]
  | _ => unexpected

/-- An index signature: `[key: T]: U`. -/
def indexSignature (r : Rules) (c : Context) : Parser Tree := do
  let start ← position
  expect "["
  let _ ← bindingName
  unless ← atPunct ":" do unexpected
  let key ← r.typeAscription? c
  expect "]"
  let value ← r.typeAscription? c
  node .type start (key ++ value)

/-- Words and punctuation behind which a word is the key of a member. -/
def memberKeyEnds : List String := ["(", "<", ":", "?", ",", ";", "\x7d"]

/-- A member from its key on, but for the words that mark an accessor. -/
def namedTypeMember (r : Rules) (c : Context) (start : Nat) : Parser Tree := do
  advanceIf ((← atAnyWord ["get", "set"]) && !(← followedByPunct memberKeyEnds) &&
    !(← following).afterNewline)
  let key ← r.typeMemberKey c
  let _ ← eat "?"
  if (← atPunct "(") || (← atPunct "<") then
    let parts ← r.signature c
    endTypeMember
    node .type start (key :: parts)
  else
    let parts ← r.typeAscription? c
    endTypeMember
    node .type start (key :: parts)

def typeMember (r : Rules) (c : Context) : Parser Tree := do
  let start ← position
  if (← atPunct "(") || (← atPunct "<") then
    let parts ← r.signature c
    endTypeMember
    return ← node .type start parts
  if (← atWord "new") && (← followedByPunct ["(", "<"]) then
    advance
    let parts ← r.signature c
    endTypeMember
    return ← node .type start parts
  advanceIf ((← atWord "readonly") && !(← followedByPunct memberKeyEnds))
  if ← atPunct "[" then
    match ← attempt (r.indexSignature c) with
    | some index =>
      endTypeMember
      return index
    | none => r.namedTypeMember c start
  else r.namedTypeMember c start

/-- What a mapped type says about `readonly`. -/
def mappedReadonly : Parser Unit := do
  if ← atAnyPunct ["+", "-"] then
    advance
    expectWord "readonly"
  else advanceIf ((← atWord "readonly") && (← followedByPunct ["["]))

def mappedOptional : Parser Unit := do
  if ← atAnyPunct ["+", "-"] then
    advance
    expect "?"
  else
    let _ ← eat "?"

/-- A mapped type after its opening brace. -/
def mappedType (r : Rules) (c : Context) : Parser (List Tree) := do
  mappedReadonly
  expect "["
  let _ ← bindingName
  expectWord "in"
  let source ← r.typeExpr c
  let renamed ← readIf (← eatWord "as") (r.typeExpr c)
  expect "]"
  mappedOptional
  let value ← r.typeAscription? c
  let _ ← eat ";"
  let _ ← eat ","
  expect "\x7d"
  return source :: renamed ++ value

def objectType (r : Rules) (c : Context) : Parser Tree := do
  let start ← position
  expect "\x7b"
  if let some parts ← attempt (r.mappedType c) then
    return ← node .type start parts
  let members ← loop r.limit (fun members => do
    if ← eat "\x7d" then return .done members.reverse
    else return .more ((← r.typeMember c) :: members)) []
  node .type start members

/-! ## Operands -/

/-- A tuple element: a type with an optional name and marks. -/
def tupleElement (r : Rules) (c : Context) : Parser Tree := do
  let start ← position
  let _ ← eat "..."
  let named ← attempt do
    let _ ← propertyName
    let _ ← eat "?"
    expect ":"
  match named with
  | some _ =>
    let t ← r.typeExpr c
    node .type start [t]
  | none =>
    let t ← r.typeExpr c
    let _ ← eat "?"
    node .type start [t]

def typeReference (r : Rules) (c : Context) : Parser Tree := do
  let start ← position
  let _ ← propertyName
  dottedNames r.limit
  if (← atPunct "<") && !(← afterNewline) then
    let args ← r.typeArguments c
    node .type start [args]
  else node .type start []

def importType (r : Rules) (c : Context) : Parser Tree := do
  let start ← position
  expectWord "import"
  expect "("
  let _ ← stringLiteral
  let _ ← readIf (← eat ",") (attempt (r.assignment c))
  expect ")"
  dottedNames r.limit
  if ← atPunct "<" then
    let args ← r.typeArguments c
    node .type start [args]
  else node .type start []

def primaryType (r : Rules) (c : Context) : Parser Tree := do
  let inner := { c with allowConditionalType := true }
  let start ← position
  match ← kind with
  | .punct "(" =>
    advance
    let t ← r.typeExpr inner
    expect ")"
    node .type start [t]
  | .punct "[" =>
    advance
    let parts ← commaSeparated r.limit "]" (r.tupleElement inner)
    node .type start parts
  | .punct "\x7b" => r.objectType inner
  | .punct "`" =>
    let parts ← template r.limit (r.typeExpr inner)
    node .type start parts
  | .punct "-" =>
    advance
    match ← kind with
    | .number _ | .bigint =>
      advance
      node .type start []
    | _ => unexpected
  | .string _ | .number _ | .bigint =>
    advance
    node .type start []
  | .word "typeof" false =>
    advance
    if ← atWord "import" then
      let t ← r.importType inner
      node .type start [t]
    else
      let t ← r.typeReference inner
      node .type start [t]
  | .word "import" false => r.importType inner
  | .word name false =>
    if ["void", "null", "this", "true", "false"].contains name then
      advance
      node .type start []
    else if reservedWords.contains name then unexpected
    else r.typeReference inner
  | .word _ true => r.typeReference inner
  | _ => unexpected

def arrayType (r : Rules) (c : Context) : Parser Tree := do
  let start ← position
  let base ← r.primaryType c
  loop r.limit (fun (t : Tree) => do
    if (← atPunct "[") && !(← afterNewline) then
      advance
      if ← eat "]" then return .more (← node .type start [t])
      let index ← r.typeExpr { c with allowConditionalType := true }
      expect "]"
      return .more (← node .type start [t, index])
    else return .done t) base

def typeOperand (r : Rules) (c : Context) : Parser Tree := do
  let start ← position
  loop r.limit (fun (_ : Unit) => do
    let next ← following
    let startsType := match next.kind with
      | .punct t => ["(", "[", "\x7b", "`", "-"].contains t
      | .word "extends" _ => false
      | .word _ _ | .string _ | .number _ => true
      | _ => false
    if (← atAnyWord ["keyof", "unique", "readonly"]) && startsType then
      advance
      return .more ()
    else if (← atWord "infer") && startsType then
      advance
      let _ ← bindingName
      -- A constraint belongs here only if no conditional type takes `extends`.
      let bound ← attempt do
        expectWord "extends"
        let t ← r.typeExpr { c with allowConditionalType := false }
        if c.allowConditionalType && (← atPunct "?") then unexpected
        pure t
      return .done (← node .type start bound.toList)
    else
      let t ← r.arrayType c
      return .done (← node .type start [t])) ()

/-- Operands joined by `&` and `|`, which have no other use in types. -/
def unionType (r : Rules) (c : Context) : Parser Tree := do
  let start ← position
  advanceIf (← atAnyPunct ["|", "&"])
  let first ← r.typeOperand c
  let all ← loop r.limit (fun items => do
    if ← atAnyPunct ["|", "&"] then
      advance
      return .more ((← r.typeOperand c) :: items)
    else return .done items.reverse) [first]
  match all with
  | [t] => node .type start [t]
  | ts => node .type start ts

/-- Takes the words in front of the type of a constructor. -/
def constructorWords : Parser Bool := do
  if ← atWord "new" then
    advance
    return true
  else if (← atWord "abstract") && (← following).kind == .word "new" false then
    advance
    advance
    return true
  else return false

def functionType? (r : Rules) (c : Context) : Parser (Option Tree) := do
  let start ← position
  let isConstructor ← constructorWords
  if isConstructor || (← atPunct "<") then
    let generics ← r.optionalTypeParameters c
    let params ← r.typeLevelParams c
    expect "=>"
    let result ← r.predicateType c
    return some (← node .type start (params ++ generics ++ [result]))
  if ← atPunct "(" then
    let head ← attempt do
      let params ← r.typeLevelParams c
      expect "=>"
      pure params
    match head with
    | some params =>
      let result ← r.predicateType c
      return some (← node .type start (params ++ [result]))
    | none => return none
  return none

def anyType (r : Rules) (c : Context) : Parser Tree := do
  let start ← position
  if let some t ← r.functionType? c then return t
  let t ← r.unionType c
  if c.allowConditionalType && (← atWord "extends") && !(← afterNewline) then
    advance
    let bound ← r.typeExpr { c with allowConditionalType := false }
    expect "?"
    let yes ← r.typeExpr c
    expect ":"
    let no ← r.typeExpr c
    node .type start [t, bound, yes, no]
  else return t

end Rules

end Recompose.Script
