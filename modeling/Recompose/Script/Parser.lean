import Recompose.Script.Grammar.Markup
import Recompose.Script.Grammar.Modules

/-!
# Parsing scripts

Ties the rules of the grammar into a knot. Every use of the knot follows at
least one token of the construct it nests in, so a script never needs more
levels than it has characters.
-/

namespace Recompose.Script

/-- The rules with room for `depth` nested constructs. -/
def rules (dialect : Dialect) (limit : Nat) : Nat → Rules
  | 0 => Rules.refusing dialect limit
  | depth + 1 =>
    let inner := rules dialect limit depth
    { dialect := dialect
      limit := limit
      assignment := inner.assignmentExpression
      operand := inner.prefixed
      constructed := inner.callee
      element := inner.markupElement
      pattern := inner.bindingPattern
      statement := inner.nestedStatement
      typeExpr := inner.anyType }

/-- Drops the first line of a script that names its interpreter. -/
def skipHashbang (cs : List Char) : List Char :=
  match cs with
  | '#' :: '!' :: rest => rest.dropWhile (!isLineEnd ·)
  | _ => cs

/-- The tree of a script, or how the parser fails on it. -/
def parseAs (dialect : Dialect) (source : String) : Except Failure Tree :=
  let cs := source.toList
  let size := byteSize cs
  let body := skipHashbang cs
  let limit := cs.length + 8
  let start := Cursor.start (size - byteSize body) body
  match (rules dialect limit limit).moduleItems.run start with
  | .ok (items, _) => .ok (.node .program ⟨0, size⟩ items)
  | .error e => .error e

/-- The tree of a script, or the span of the first token that cannot be part of
one. A script with a fault is read once more by a lenient parser, which passes
over what it can. -/
def parseTree (dialect : Dialect) (source : String) : Except Span Tree :=
  match parseAs dialect source with
  | .ok tree => .ok tree
  | .error _ => (parseAs { dialect with lenient := true } source).mapError (·.span)

end Recompose.Script
