import Recompose.Script.Values

/-!
# The component of a script

A script defines a component by its default export: an object literal, or a
call with one object literal as its only argument.
-/

namespace Recompose.Script

/-- The default export of a component and its options object. -/
structure Component where
  exportSpan : Span
  object : Tree

/-- The options object that an exported expression gives. -/
def optionsObject? (value : Tree) : Option Tree :=
  let inner := value.unparen
  match inner with
  | .node .object _ _ => some inner
  | .node .call _ (_ :: rest) =>
    match rest.filter (·.kind != .type) with
    | [arg] =>
      if arg.kind == .spread then none
      else if arg.unparen.kind == .object then some arg.unparen
      else none
    | _ => none
  | _ => none

/-- The component that some items export, or the span of a default export that
is no component. -/
def componentIn : List Tree → Except Span (Option Component)
  | [] => .ok none
  | t :: ts =>
    match t with
    | .node .exportDefault span (value :: _) =>
      match optionsObject? value with
      | some object => .ok (some ⟨span, object⟩)
      | none => .error span
    | .node .exportDefaultDecl span _ => .error span
    | _ => componentIn ts

def component (s : Script) : Except Span (Option Component) := componentIn s.items

/-- The expression that an argument is or spreads, parentheses taken off. -/
def Tree.argument : Tree → Tree
  | .node .spread _ [e] => e.unparen
  | e => e.unparen

def definedOptions? (item : Tree) : Option Tree :=
  match item with
  | .node .exprStmt _ [.node .call _ (.node (.ident "defineOptions") _ _ :: rest)] =>
    match rest.filter (·.kind != .type) with
    | arg :: _ => if arg.argument.kind == .object then some arg.argument else none
    | [] => none
  | _ => none

/-- The object of the first `defineOptions` call at the top that has one. -/
def defineOptions? (s : Script) : Option Tree := s.items.findSome? definedOptions?

/-- The spans of the properties that keep their text: all but the one that
holds the value of `setup`. -/
def preservedSpans (object : Tree) : List Span :=
  let setup := (object.properties.get? "setup").map Tree.span
  (object.parts.map Tree.span).filter fun span =>
    match setup with
    | some inner => !span.covers inner
    | none => true

end Recompose.Script
