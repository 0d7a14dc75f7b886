import Recompose.Entries
import Recompose.Script.Basic

/-!
# Values of options

An option of a component is a property of its options object. The value of an
option is the tree of its expression, or the whole method, getter or shorthand
property. The functions here look at such a value: as a literal, an object, an
array or something that can be called.
-/

namespace Recompose.Script

namespace Tree

/-! ## Keys and properties -/

def stringValue? (t : Tree) : Option String :=
  match t.unparen.kind with
  | .string value => value
  | _ => none

/-- The name that a key spells, if it is known without running anything. -/
def staticName? (key : Tree) : Option String :=
  match key with
  | node (.ident name) _ _ => some name
  | node (.string value) _ _ => value
  | node (.number text) _ _ => some text
  | node .computedKey _ [inner] => inner.stringValue?
  | _ => none

/-- The static name and the value of a property. Spreads, setters and defaults
have none. -/
def option? (property : Tree) : Option (String × Tree) :=
  match property with
  | node .keyValue _ [key, value] => key.staticName?.map (·, value)
  | node (.method _ _) _ (key :: _) => key.staticName?.map (·, property)
  | node .getter _ (key :: _) => key.staticName?.map (·, property)
  | node .shorthand _ (name :: _) => name.staticName?.map (·, property)
  | _ => none

/-- Whether a value is an expression, rather than a property that is its own
value. -/
def isExpression (value : Tree) : Bool :=
  match value.kind with
  | .method _ _ | .getter | .shorthand => false
  | _ => true

def expression? (value : Tree) : Option Tree :=
  if value.isExpression then some value.unparen else none

/-! ## Objects and arrays -/

def asObject? (value : Tree) : Option Tree :=
  value.expression?.filter (·.kind == .object)

def asArray? (value : Tree) : Option Tree :=
  value.expression?.filter (·.kind == .array)

/-- The options of an object by name: a repeated name keeps its first place
and its last value. -/
def properties (object : Tree) : Entries Tree :=
  Entries.ofPairs (object.parts.filterMap option?)

/-- The elements of an array that are there. -/
def elements (array : Tree) : List Tree := array.parts.filter (·.kind != .hole)

def stringElements (array : Tree) : List String := array.parts.filterMap stringValue?

/-! ## Names and literals -/

def asIdent? (value : Tree) : Option String :=
  match value with
  | node .shorthand _ (name :: _) => name.staticName?
  | _ =>
    match value.expression?.map kind with
    | some (.ident name) => some name
    | _ => none

def asString? (value : Tree) : Option String := value.expression?.bind stringValue?

inductive Literal where
  | string (value : Option String)
  | boolean (value : Bool)
  | null
  | number (text : String)
  | bigint
  | regex
deriving DecidableEq, Repr

def asLiteral? (value : Tree) : Option Literal :=
  match value.expression?.map kind with
  | some (.string v) => some (.string v)
  | some (.boolean b) => some (.boolean b)
  | some .null => some .null
  | some (.number t) => some (.number t)
  | some .bigint => some .bigint
  | some .regex => some .regex
  | _ => none

end Tree

/-! ## Functions -/

/-- A parameter: where it stands, whether it has a type of its own, and its
name when it is nothing but a name. -/
structure Param where
  span : Span
  typed : Bool
  name : Option String
deriving Repr

/-- What a function runs. -/
inductive Body where
  | block (tree : Tree)
  | expr (tree : Tree)
  | missing

/-- How a function is written. -/
inductive Form where
  /-- A method or a function expression. -/
  | function
  | arrow
  | getter
deriving DecidableEq, Repr

/-- Anything that can be called: a method, a function expression, an arrow
function or a getter. -/
structure Callable where
  span : Span
  form : Form
  isAsync : Bool
  isGenerator : Bool
  params : List Param
  body : Body
  /-- The return type, without its colon. -/
  returnType : Option Span

namespace Tree

def param? (t : Tree) : Option Param :=
  match t with
  | node (.param typed) span (pattern :: _) =>
    let name := match pattern.kind with
      | .ident n => some n
      | _ => none
    some ⟨span, typed, name⟩
  | _ => none

def body? (t : Tree) : Option Body :=
  match t with
  | node .block _ _ => some (.block t)
  | node .exprBody _ [inner] => some (.expr inner)
  | _ => none

/-- Puts the parts of a function in their places. -/
def callable (t : Tree) (form : Form) (isAsync isGenerator : Bool) : Callable where
  span := t.span
  form := form
  isAsync := isAsync
  isGenerator := isGenerator
  params := t.parts.filterMap param?
  body := (t.parts.findSome? body?).getD .missing
  returnType := (t.parts.find? (·.kind == .returnType)).map span

def asFunction? (value : Tree) : Option Callable :=
  match value.kind with
  | .method isAsync isGenerator => some (value.callable .function isAsync isGenerator)
  | .getter => some (value.callable .getter false false)
  | _ => do
    let inner ← value.expression?
    match inner.kind with
    | .function isAsync isGenerator => some (inner.callable .function isAsync isGenerator)
    | .arrow isAsync => some (inner.callable .arrow isAsync false)
    | _ => none

end Tree

namespace Callable

def hasParams (f : Callable) : Bool := !f.params.isEmpty

def firstParam? (f : Callable) : Option String := f.params.head?.bind (·.name)

end Callable

/-- A body cut at its first return at the top: the statements before it and the
returned expression, parentheses taken off. -/
structure SplitBody where
  before : List Tree
  returned : Option Tree

/-- Cuts statements at the first return among them. -/
def splitAtReturn? : List Tree → Option SplitBody
  | [] => none
  | t :: ts =>
    if t.kind == .returnStmt then some ⟨[], t.parts.head?.map Tree.unparen⟩
    else (splitAtReturn? ts).map fun split => { split with before := t :: split.before }

def Tree.splitBody? (block : Tree) : Option SplitBody := splitAtReturn? block.parts

def statementsSpan? (statements : List Tree) : Option Span := do
  let first ← statements.head?
  let last ← statements.getLast?
  return first.span.upTo last.span

/-! ## Printing values -/

/-- Prints a function with a name, or as an arrow function without one. An
arrow function keeps its text where it needs no name, or can take none. -/
def functionCode (s : Script) (f : Callable) (name : Option String) (indentation : Nat) :
    String :=
  let isExpr := match f.body with
    | .expr _ => true
    | _ => false
  if f.form == .arrow && (name.isNone || isExpr) then s.codeAt f.span indentation
  else
    let params := ", ".intercalate (f.params.map fun p => s.textAt p.span)
    let result := match f.returnType with
      | some span => ": " ++ s.textAt span
      | none => ""
    let body := match f.body with
      | .block t | .expr t => s.code t indentation
      | .missing => "\x7b\x7d"
    let lead := if f.isAsync then "async " else ""
    let head := "(" ++ params ++ ")" ++ result
    match name with
    | some n =>
      let star := if f.isGenerator then "*" else ""
      lead ++ "function" ++ star ++ " " ++ n ++ head ++ " " ++ body
    | none =>
      if f.isGenerator then lead ++ "function*" ++ head ++ " " ++ body
      else lead ++ head ++ " => " ++ body

/-- Prints a value; methods and getters become functions. -/
def valueCode (s : Script) (value : Tree) (indentation : Nat) : String :=
  match value.kind, value.asFunction? with
  | .method _ _, some f | .getter, some f => s.functionCode f none indentation
  | _, _ => s.code value indentation

end Recompose.Script
