import Recompose.Script.Cursor

/-!
# The grammar as a knot

The rules of the grammar refer to each other. Each rule is a plain function of
a record of the rules that it may use for the parts of its construct; the
record is tied into a knot, one level per nested construct, by the parser.
-/

namespace Recompose.Script

structure Dialect where
  typescript : Bool := false
  /-- Whether markup elements are expressions. -/
  markup : Bool := false
  /-- Whether faults are passed over behind which a statement ends. -/
  lenient : Bool := false
deriving DecidableEq, Repr, Inhabited

/-- The language that a `lang` attribute names. -/
def Dialect.ofLang? : Option String → Dialect
  | some "ts" => { typescript := true }
  | some "tsx" => { typescript := true, markup := true }
  | some "jsx" => { markup := true }
  | _ => {}

/-- What the surroundings of a construct allow. -/
structure Context where
  /-- Whether `in` is an operator here. -/
  allowIn : Bool := true
  inGenerator : Bool := false
  /-- Between the question mark and the colon of a conditional. -/
  inConditional : Bool := false
  /-- Whether a conditional type may stand here. -/
  allowConditionalType : Bool := true

/-- Inside brackets, `in` is an operator again. -/
def Context.bracketed (c : Context) : Context := { c with allowIn := true, inConditional := false }

/-- The rules that constructs use for their parts. -/
structure Rules where
  dialect : Dialect
  /-- More than the number of tokens of the script. -/
  limit : Nat
  /-- An expression without a comma at the top. -/
  assignment : Context → Parser Tree
  /-- An operand with its prefix operators. -/
  operand : Context → Parser Tree
  /-- What `new` constructs: an expression without calls. -/
  constructed : Context → Parser Tree
  /-- A markup element; the cursor stays on its last `>`. -/
  element : Context → Parser Tree
  pattern : Context → Parser Tree
  statement : Context → Parser Tree
  typeExpr : Context → Parser Tree

/-- Rules that accept nothing. -/
def Rules.refusing (dialect : Dialect) (limit : Nat) : Rules where
  dialect := dialect
  limit := limit
  assignment _ := Parser.unexpected
  operand _ := Parser.unexpected
  constructed _ := Parser.unexpected
  element _ := Parser.unexpected
  pattern _ := Parser.unexpected
  statement _ := Parser.unexpected
  typeExpr _ := Parser.unexpected

namespace Rules

open Recompose.Script.Parser

/-- An expression; operands of the comma operator become parts. -/
def expression (r : Rules) (c : Context) : Parser Tree := do
  let start ← position
  let first ← r.assignment c
  if ← atPunct "," then
    let all ← loop r.limit (fun items => do
      if ← eat "," then return Step.more ((← r.assignment c) :: items)
      else return Step.done items.reverse) [first]
    node .expression start all
  else return first

end Rules

/-! ## Words -/

/-- Words that are never names. -/
def reservedWords : List String :=
  ["break", "case", "catch", "class", "const", "continue", "debugger", "default", "delete",
   "do", "else", "export", "extends", "false", "finally", "for", "function", "if", "import",
   "in", "instanceof", "new", "null", "return", "super", "switch", "this", "throw", "true",
   "try", "typeof", "var", "void", "while", "with"]

/-- Words that, beside the reserved ones, are no expressions. -/
def strictWords : List String :=
  ["await", "yield", "let", "enum", "implements", "interface", "package", "private",
   "protected", "public"]

namespace Parser

def bindingName : Parser Tree := do
  match ← kind with
  | .word name _ =>
    if reservedWords.contains name || name == "await" then unexpected
    let span := (← get).token.span
    advance
    return .leaf (.ident name) span
  | _ => unexpected

def propertyName : Parser Tree := do
  match ← kind with
  | .word name _ =>
    let span := (← get).token.span
    advance
    return .leaf (.ident name) span
  | _ => unexpected

def stringLiteral : Parser Tree := do
  match ← kind with
  | .string value =>
    let span := (← get).token.span
    advance
    return .leaf (.string value) span
  | _ => unexpected

/-- Names with a dot in front of each. -/
def dottedNames (limit : Nat) : Parser Unit :=
  loop limit (fun (_ : Unit) => do
    if ← eat "." then
      let _ ← propertyName
      return .more ()
    else return .done ()) ()

/-- The template that starts at the current backquote; `part` reads what
stands in a substitution. -/
def template (limit : Nat) (part : Parser Tree) : Parser (List Tree) := do
  let c ← get
  let start := c.token.span.start
  let whole : List Char → Span := fun cs => ⟨start, c.token.span.stop + byteSize cs⟩
  loop limit (fun (state : List Tree × Nat × List Char) => do
    let (parts, pos, text) := state
    match readTemplateText? false pos text with
    | none => blame (whole c.after)
    | some (true, stop, rest) =>
      set (Cursor.start stop rest)
      return .done parts.reverse
    | some (false, stop, rest) =>
      set (Cursor.start stop rest)
      let tree ← part
      unless ← atPunct "\x7d" do unexpected
      let close ← get
      return .more (tree :: parts, close.token.span.stop, close.after))
    ([], c.token.span.stop, c.after)

end Parser

end Recompose.Script
