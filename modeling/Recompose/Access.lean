import Recompose.Plugin

/-!
# Accesses to members of `this`

Collects the accesses of a tree in the order in which they are visited, and
how each is used. An access is written to when it is the target of an
assignment or an update, an element of a pattern that is assigned to, or what
a loop assigns to; parentheses do not matter for the last three.
-/

namespace Recompose

open Script (Tree)

/-- An access to a member of `this`. -/
structure Access where
  span : Span
  /-- Where `this` stands. -/
  receiver : Span
  /-- The accessed name; a computed key that is no string has none. -/
  name : Option String
  use : AccessUse
deriving DecidableEq, Repr

/-- What a replacement takes the place of: the whole access, or only `this`
where the key is not known. -/
def Access.replaced (a : Access) : Span := if a.name.isSome then a.span else a.receiver

/-- The access that a member of `this` is. Private names are no members of a
component. -/
def Access.ofMember (span receiver : Span) (key : Tree) (use : AccessUse) : List Access :=
  match key.kind with
  | .privateName => []
  | _ => [⟨span, receiver, key.staticName?, use⟩]

/-- A use that holds for a member access only, not for anything around one. -/
def AccessUse.direct (use : AccessUse) (t : Tree) : AccessUse :=
  if t.kind == .member then use else .other

mutual

/-- The accesses of a tree that is used in a certain way. Only a computed key
can have some. -/
def accesses (use : AccessUse) : Tree → List Access
  | .node (.string _) _ _ => []
  | .node .member span [receiver, key] =>
    if receiver.kind == .thisExpr then
      Access.ofMember span receiver.span key use ++
        if key.kind == .computedKey then accesses .other key else []
    else accesses .other receiver ++ accesses .other key
  | .node .paren _ [inner] => accesses use inner
  | .node .assign _ (target :: rest) =>
    accesses (AccessUse.assigned.direct target) target ++ accessesOfAll rest
  | .node .target _ [inner] => accesses .assigned inner
  | .node .update _ [inner] => accesses .updated inner
  | .node .call _ (callee :: rest) =>
    accesses (AccessUse.called.direct callee) callee ++ accessesOfAll rest
  | .node _ _ parts => accessesOfAll parts

def accessesOfAll : List Tree → List Access
  | [] => []
  | t :: ts => accesses .other t ++ accessesOfAll ts

end

def Script.accessesOutside (script : Script) (excluded : List Span) : List Access :=
  (accesses .other script.tree).filter fun a => !excluded.any (·.covers a.span)

end Recompose
