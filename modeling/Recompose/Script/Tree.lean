import Recompose.Span

/-!
# Syntax trees

A tree is a kind, a span and its parts. Kinds name the constructs that the
library tells apart and those that declare names for what is inside of them;
every other construct is an `expression`, a `statement` or a `type` whose parts
alone matter. Parts stand in the order in which a walk visits them, which is
source order but for a few constructs noted at the parser.
-/

namespace Recompose.Script

/-- How a variable declaration binds. -/
inductive BindingMode where
  | viaConst
  | viaLet
  | viaVar
deriving DecidableEq, Repr

inductive Kind where
  -- Module items and statements.
  | program
  /-- Parts: specifiers, then the source string. -/
  | importDecl (typeOnly : Bool)
  /-- Part: the local name. -/
  | importDefault
  /-- Part: the local name. -/
  | importNamespace
  /-- Parts: the imported name, when it is spelt out, and the local name. -/
  | importNamed
  /-- Part: the exported expression. -/
  | exportDefault
  /-- Part: the exported function, class or interface. -/
  | exportDefaultDecl
  /-- Parts: declarators. -/
  | declaration (mode : BindingMode)
  /-- Parts: a pattern and the initial value, if any. -/
  | declarator
  /-- Part: an expression. -/
  | exprStmt
  /-- Part: the returned expression, if any. -/
  | returnStmt
  /-- Parts: statements. -/
  | block
  /-- A `for` loop. Parts: what it declares or starts with, its conditions and
  the body. -/
  | forStmt
  /-- Parts: the subject, then the tests and statements of the cases. -/
  | switchStmt
  /-- Parts: the pattern, if any, and the body. -/
  | catchClause
  /-- Any other statement or module item. -/
  | statement
  -- Functions. The parts are the name or key, parameters, the body, type
  -- parameters and the return type, as far as there are any.
  | function (isAsync isGenerator : Bool)
  | method (isAsync isGenerator : Bool)
  | getter
  | setter
  | arrow (isAsync : Bool)
  /-- Parts: a pattern, with its annotation and default. -/
  | param (typed : Bool)
  /-- Part: the expression that is the body of an arrow function. -/
  | exprBody
  /-- A type after the parameters; the span leaves out the colon. -/
  | returnType
  /-- Parts: the name, if any, members, what the class extends and implements, and
  type parameters. -/
  | classDef
  -- Properties of object literals.
  /-- Parts: key and value. -/
  | keyValue
  /-- Part: the name. -/
  | shorthand
  /-- A name with a default, which only patterns may have. -/
  | defaulted
  /-- Part: an expression. Also elements and arguments. -/
  | spread
  /-- A key in brackets. Part: an expression. -/
  | computedKey
  -- Expressions.
  | ident (name : String)
  | thisExpr
  | string (value : Option String)
  | number (text : String)
  | bigint
  | boolean (value : Bool)
  | null
  | regex
  | privateName
  /-- A keyword in the place of an expression. -/
  | keyword (name : String)
  /-- Part: an expression. -/
  | paren
  /-- Parts: elements; a missing one is a `hole`. -/
  | array
  | hole
  /-- Parts: properties. -/
  | object
  /-- Parts: the object and a name, private name or computed key. -/
  | member
  /-- Parts: the callee, arguments and type arguments. -/
  | call
  /-- Parts: a target and a value. -/
  | assign
  /-- Part: an expression. -/
  | update
  /-- An expression with `as` or `satisfies` and a type, which `const` is not.
  Parts: expression and type. -/
  | cast
  /-- An expression with `as const`. Part: the expression. -/
  | constCast
  /-- An expression that is said not to be null. Part: the expression. -/
  | nonNull
  /-- Any other expression. -/
  | expression
  -- Patterns. A pattern may end with its type.
  | arrayPattern
  | objectPattern
  /-- Parts: key and pattern. -/
  | patternProperty
  /-- Parts: a name and its default, if any. -/
  | patternShorthand
  /-- Parts: a pattern and its default. -/
  | defaultPattern
  /-- Part: a pattern. -/
  | restPattern
  /-- An expression that is assigned to by a pattern or a loop. -/
  | target
  /-- A type; its parts are types and the expressions inside it. -/
  | type
deriving DecidableEq, Repr, Inhabited

inductive Tree where
  | node (kind : Kind) (span : Span) (parts : List Tree)
deriving Repr, Inhabited

namespace Tree

def kind : Tree → Kind
  | node k _ _ => k

def span : Tree → Span
  | node _ s _ => s

def parts : Tree → List Tree
  | node _ _ ps => ps

def leaf (kind : Kind) (span : Span) : Tree := node kind span []

/-- The same construct from an earlier offset on. What begins with a brace stays
where it is, inside of a statement. -/
def startingAt (start : Nat) : Tree → Tree
  | node .block s ps => node .statement ⟨start, s.stop⟩ [node .block s ps]
  | node .object s ps => node .statement ⟨start, s.stop⟩ [node .object s ps]
  | node k s ps => node k ⟨start, s.stop⟩ ps

def unparen : Tree → Tree
  | node .paren _ [inner] => unparen inner
  | t => t

end Tree

end Recompose.Script
