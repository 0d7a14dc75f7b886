import Recompose.Script.Grammar.Types

/-!
# Patterns, parameters and function bodies

Patterns bind names in declarations and parameters. An array or object literal
in front of an equals sign is a pattern, too: `asPattern` reads it again as
one, and marks the expressions that it assigns to as targets.
-/

namespace Recompose.Script

/-! ## Literals as patterns -/

mutual

/-- A literal read again as the pattern it spells. -/
def asPattern : Tree → Tree
  | .node .array s ps => .node .arrayPattern s (asPatterns ps)
  | .node .object s ps => .node .objectPattern s (asPatterns ps)
  | .node .spread s ps => .node .restPattern s (asPatterns ps)
  | .node .keyValue s [k, v] => .node .patternProperty s [k, asPattern v]
  | .node .shorthand s ps => .node .patternShorthand s ps
  | .node .defaulted s ps => .node .patternShorthand s ps
  | .node .assign s (t :: v) => .node .defaultPattern s (asPattern t :: v)
  | .node (.ident n) s ps => .node (.ident n) s ps
  | .node .hole s ps => .node .hole s ps
  | .node .arrayPattern s ps => .node .arrayPattern s ps
  | .node .objectPattern s ps => .node .objectPattern s ps
  | .node k s ps => .node .target s [.node k s ps]

def asPatterns : List Tree → List Tree
  | [] => []
  | t :: ts => asPattern t :: asPatterns ts

end

/-- Whether an expression may stand on the left of an assignment. -/
def isAssignable (t : Tree) : Bool :=
  match t.kind with
  | .string _ | .number _ | .boolean _ | .null | .bigint | .regex | .thisExpr
  | .function _ _ | .arrow _ | .call | .assign | .update | .keyword _ => false
  | _ => true

def assignmentTarget (t : Tree) : Tree :=
  match t.kind with
  | .array | .object => asPattern t
  | _ => t

namespace Tree

/-- Adds parts at the end, up to which the tree then reaches. -/
def extend (t : Tree) (more : List Tree) : Tree :=
  let stop := more.foldl (fun stop part => max stop part.span.stop) t.span.stop
  .node t.kind ⟨t.span.start, stop⟩ (t.parts ++ more)

end Tree

open Recompose.Script.Parser

namespace Rules

/-! ## Binding patterns -/

def propertyKey (r : Rules) (c : Context) : Parser Tree := do
  let span := (← get).token.span
  match ← kind with
  | .word name _ => advance; return .leaf (.ident name) span
  | .string value => advance; return .leaf (.string value) span
  | .number text => advance; return .leaf (.number text) span
  | .bigint => advance; return .leaf .bigint span
  | .punct "[" =>
    advance
    let key ← r.assignment c.bracketed
    expect "]"
    node .computedKey span.start [key]
  | _ => unexpected

def withDefault (r : Rules) (c : Context) (start : Nat) (pattern : Tree) : Parser Tree := do
  if ← eat "=" then
    let value ← r.assignment c.bracketed
    node .defaultPattern start [pattern, value]
  else return pattern

def patternElement (r : Rules) (c : Context) : Parser Tree := do
  let start ← position
  r.withDefault c start (← r.pattern c)

def patternRest (r : Rules) (c : Context) : Parser Tree := do
  let start ← position
  expect "..."
  let inner ← r.pattern c
  node .restPattern start [inner]

/-- A property of a pattern from behind its key on. -/
def patternPropertyRest (r : Rules) (c : Context) (start : Nat) (key : Tree) : Parser Tree := do
  if ← eat ":" then
    let value ← r.patternElement c
    return ← node .patternProperty start [key, value]
  match key.kind with
  | .ident _ =>
    if ← eat "=" then
      let value ← r.assignment c.bracketed
      node .patternShorthand start [key, value]
    else node .patternShorthand start [key]
  | _ => unexpected

def patternProperty (r : Rules) (c : Context) : Parser Tree := do
  if ← atPunct "..." then return ← r.patternRest c
  let start ← position
  let key ← r.propertyKey c
  r.patternPropertyRest c start key

def patternItem (r : Rules) (c : Context) : Parser Tree := do
  if ← atPunct "..." then r.patternRest c else r.patternElement c

def bindingPattern (r : Rules) (c : Context) : Parser Tree := do
  let start ← position
  match ← kind with
  | .punct "[" =>
    advance
    let elements ← loop r.limit (fun items => do
      if ← eat "]" then return .done items.reverse
      if ← atPunct "," then
        let pos ← position
        advance
        return .more (Tree.leaf .hole ⟨pos, pos⟩ :: items)
      let item ← r.patternItem c
      if ← eat "]" then return .done (item :: items).reverse
      expect ","
      return .more (item :: items)) []
    node .arrayPattern start elements
  | .punct "\x7b" =>
    advance
    let properties ← commaSeparated r.limit "\x7d" (r.patternProperty c)
    node .objectPattern start properties
  | _ => bindingName

/-! ## Parameters -/

/-- Words in front of a parameter that also declares a field. -/
def fieldModifiers : List String := ["public", "private", "protected", "readonly", "override"]

/-- Skips modifiers that are followed by what they modify. -/
def skipFieldModifiers (r : Rules) : Parser Unit :=
  loop r.limit (fun (_ : Unit) => do
    let next ← following
    let modifies := match next.kind with
      | .word _ _ => true
      | .punct t => t == "[" || t == "\x7b"
      | _ => false
    if r.dialect.typescript && (← atAnyWord fieldModifiers) && modifies then
      advance
      return .more ()
    else return .done ()) ()

/-- Skips what may stand in front of a parameter, but not in arrow functions. -/
def parameterWords (r : Rules) (ofArrow : Bool) : Parser Unit :=
  if ofArrow then pure () else r.skipFieldModifiers

/-- The rest parameter after its dots. Nothing may follow it. -/
def restParameter (r : Rules) (c : Context) (start : Nat) (ofArrow : Bool) : Parser Tree := do
  let pattern ← r.pattern c
  let ascription ← r.typeAscription? c
  let whole ← spanFrom start
  let span := if ofArrow && ascription.isEmpty then pattern.span else whole
  let rest := Tree.node .restPattern span (pattern :: ascription)
  unless ← atPunct ")" do unexpected
  return .node (.param !ascription.isEmpty) span [rest]

/-- One parameter. Its span runs from its pattern to its default; in an arrow
function, a mark that no type follows stays outside: the question mark of an
optional parameter and the dots of a rest parameter. -/
def parameter (r : Rules) (c : Context) (ofArrow : Bool) : Parser Tree := do
  let start ← position
  let c := { c with allowIn := true, inConditional := false }
  if ← eat "..." then return ← r.restParameter c start ofArrow
  r.parameterWords ofArrow
  let pattern ← r.parameterBinding c r.dialect.typescript
  let optional ← r.eatMark "?"
  let ascription ← r.typeAscription? c
  let typed := pattern.extend ascription
  let full ← r.withDefault c start typed
  let whole ← spanFrom start
  let span :=
    if ofArrow && optional && ascription.isEmpty && full.kind != .defaultPattern then pattern.span
    else whole
  return .node (.param !ascription.isEmpty) span [full]

def parameters (r : Rules) (c : Context) (ofArrow : Bool) : Parser (List Tree) := do
  expect "("
  commaSeparated r.limit ")" (r.parameter c ofArrow)

/-! ## Bodies -/

/-- Statements up to a closing brace, which is taken. -/
def statementsInBraces (r : Rules) (c : Context) : Parser (List Tree) := do
  expect "\x7b"
  loop r.limit (fun items => do
    if ← eat "\x7d" then return .done items.reverse
    else return .more ((← r.statement c) :: items)) []

def blockStatement (r : Rules) (c : Context) : Parser Tree := do
  let start ← position
  let statements ← r.statementsInBraces c
  node .block start statements

/-- A function from its type parameters on: parameters, body, type parameters
and return type. Without a body only where a signature is enough. -/
def functionRest (r : Rules) (isGenerator bodyNeeded : Bool) : Parser (List Tree) := do
  let c : Context := { inGenerator := isGenerator }
  let generics ← r.optionalTypeParameters c
  let params ← r.parameters c false
  let result ← r.returnType? c
  if (← atPunct "\x7b") || bodyNeeded || !r.dialect.typescript then
    let body ← r.blockStatement c
    return params ++ [body] ++ generics ++ result
  else
    endStatement
    return params ++ generics ++ result

end Rules

end Recompose.Script
