import Recompose.Script.Values
import Recompose.Text.Quoted

/-!
# Imports and declarations of a snippet

Reads what an import binds and what a variable declaration binds, both in
hoisted snippets and in the scripts that they are merged into.
-/

namespace Recompose

/-- What one import, or several from one module, ask for. -/
structure ImportRequest where
  source : String := ""
  /-- Pairs of an imported and a local name. -/
  named : List (String × String) := []
  default : Option String := none
  wildcard : Option String := none
deriving DecidableEq, Repr

inductive Binding where
  | name (name : String)
  /-- Destructured properties, as written. -/
  | properties (texts : List String)
deriving DecidableEq, Repr

/-- One declarator of a variable declaration. -/
structure DeclarationRequest where
  mode : Script.BindingMode
  /-- The text of the initial value. -/
  init : String
  binding : Binding
deriving DecidableEq, Repr

open Script (Tree)

def importedName (t : Tree) : String :=
  match t.kind with
  | .ident name => name
  | .string value => quote (value.getD "")
  | _ => ""

def boundName (t : Tree) : String :=
  match t.kind with
  | .ident name => name
  | _ => ""

/-- Adds what one specifier, or the source, asks for. -/
def ImportRequest.add (r : ImportRequest) (part : Tree) : ImportRequest :=
  match part with
  | .node .importNamed _ [imported, bound] =>
    { r with named := r.named ++ [(importedName imported, boundName bound)] }
  | .node .importNamed _ [bound] =>
    { r with named := r.named ++ [(boundName bound, boundName bound)] }
  | .node .importDefault _ [bound] => { r with default := some (boundName bound) }
  | .node .importNamespace _ [bound] => { r with wildcard := some (boundName bound) }
  | .node (.string value) _ _ => { r with source := value.getD "" }
  | _ => r

def ImportRequest.ofTree (decl : Tree) : ImportRequest := decl.parts.foldl ImportRequest.add {}

def patternProperties (pattern : Tree) : List Tree :=
  pattern.parts.filter (·.kind != .type)

/-- What a declarator binds, if it has an initial value and binds a name or an
object of names. -/
def declarationRequest? (script : Script) (mode : Script.BindingMode) (declarator : Tree) :
    Option DeclarationRequest :=
  match declarator with
  | .node .declarator _ [pattern, init] =>
    match pattern.kind with
    | .ident name => some ⟨mode, script.text init, .name name⟩
    | .objectPattern =>
      some ⟨mode, script.text init, .properties ((patternProperties pattern).map script.text)⟩
    | _ => none
  | _ => none

/-- What a snippet is. -/
inductive Snippet where
  | imports (request : ImportRequest)
  | declares (requests : List DeclarationRequest)
  /-- Anything else, and text that is no script. -/
  | other

/-- Reads a hoisted snippet: a single import of values, or a single variable
declaration all of whose declarators can be merged. -/
def Snippet.ofText [Script.Reader] (content : String) : Snippet :=
  match Script.Reader.read { typescript := true } content with
  | .error _ => .other
  | .ok script =>
    match script.items with
    | [.node (.importDecl false) span parts] =>
      .imports (ImportRequest.ofTree (.node (.importDecl false) span parts))
    | [.node (.declaration mode) _ declarators] =>
      match declarators.mapM (declarationRequest? script mode) with
      | some requests => .declares requests
      | none => .other
    | _ => .other

end Recompose
