import Recompose.Code.Collected
import Recompose.Edit
import Recompose.Settings

/-!
# Merging hoisted code

Hoisted imports and declarations are merged with each other and with what the
script already has. Names from a module that the script imports names from are
added to that import; everything else is new code.
-/

namespace Recompose

open Script (Tree)

/-! ## What a script has -/

structure ExistingImport where
  named : List (String × String) := []
  default : Option String := none
  wildcard : Option String := none
  /-- Where names can be added: the end of the first import that has some. -/
  extensionPoint : Option Nat := none

def ExistingImport.add (e : ExistingImport) (decl : Tree) (request : ImportRequest) :
    ExistingImport where
  named := e.named ++ request.named
  default := e.default.or request.default
  wildcard := e.wildcard.or request.wildcard
  extensionPoint :=
    e.extensionPoint.or
      (if request.named.isEmpty then none
       else (decl.parts.dropLast.getLast?).map (·.span.stop))

/-- The imports of a script by module; imports of types do not count. -/
def existingImports (target : Script) : Entries ExistingImport :=
  (target.items.filter (·.kind == .importDecl false)).foldl (fun found decl =>
    let request := ImportRequest.ofTree decl
    found.update request.source {} (·.add decl request)) []

/-- The names and properties that a script declares with one initial value. -/
structure ExistingDeclaration where
  names : List String := []
  properties : List String := []

def addDeclarator (target : Script) (found : Entries ExistingDeclaration) (declarator : Tree) :
    Entries ExistingDeclaration :=
  match declarator with
  | .node .declarator _ [pattern, init] =>
    found.update (target.text init) {} fun e =>
      match pattern.kind with
      | .ident name => { e with names := e.names ++ [name] }
      | .objectPattern =>
        let kept := (patternProperties pattern).filter (·.kind != .restPattern)
        { e with properties := e.properties ++ kept.map target.text }
      | _ => e
  | _ => found

def existingDeclarations (target : Script) : Entries ExistingDeclaration :=
  target.items.foldl (fun found item =>
    match item with
    | .node (.declaration _) _ declarators => declarators.foldl (addDeclarator target) found
    | _ => found) []

/-! ## What is asked for -/

/-- Adds a request to what is asked for from the same module: each pair once,
the first default and wildcard. -/
def ImportRequest.merge (group request : ImportRequest) : ImportRequest where
  source := group.source
  named := request.named.foldl (fun named pair =>
    if named.contains pair then named else named ++ [pair]) group.named
  default := group.default.or request.default
  wildcard := group.wildcard.or request.wildcard

/-- Requests by module, aliases applied, in the order of first request. -/
def importGroups (settings : Settings) (requests : List ImportRequest) : Entries ImportRequest :=
  requests.foldl (fun groups request =>
    let source := settings.moduleFor request.source
    groups.update source { source := source } (·.merge request)) []

/-- What is asked for with one initial value. -/
structure DeclarationGroup where
  isLet : Bool := false
  name : Option String := none
  properties : List String := []

def DeclarationGroup.add (g : DeclarationGroup) (request : DeclarationRequest) :
    DeclarationGroup :=
  let g := { g with isLet := g.isLet || request.mode == Script.BindingMode.viaLet }
  match request.binding with
  | .name n => { g with name := g.name.or (some n) }
  | .properties texts =>
    { g with properties := texts.foldl (fun known t =>
        if known.contains t then known else known ++ [t]) g.properties }

/-- Declarations by initial value, in the order of first request. -/
def declarationGroups (requests : List DeclarationRequest) : Entries DeclarationGroup :=
  requests.foldl (fun groups request => groups.update request.init {} (·.add request)) []

/-! ## What is new -/

/-- Hoisted code that a script lacks. -/
structure Hoisted where
  imports : List String := []
  declarations : List String := []
  /-- Names to add to imports of the script: where, and their text. -/
  extensions : List (Nat × String) := []
deriving Repr

def Hoisted.append (a b : Hoisted) : Hoisted where
  imports := a.imports ++ b.imports
  declarations := a.declarations ++ b.declarations
  extensions := a.extensions ++ b.extensions

def specifierText (pair : String × String) : String :=
  if pair.1 = pair.2 then pair.2 else pair.1 ++ " as " ++ pair.2

/-- The default or wildcard that is still missing, or else the declaration
that gives the one the script has another name. -/
def aliasName (wanted found : Option String) : Option String × List String :=
  match wanted, found with
  | none, _ => (none, [])
  | some bound, none => (some bound, [])
  | some bound, some existing =>
    (none, if existing = bound then [] else ["const " ++ bound ++ " = " ++ existing])

def importLines (source : String) (default wildcard : Option String) (named : List String) :
    List String :=
  let tail := " from '" ++ source ++ "'"
  let braces := "\x7b " ++ ", ".intercalate named ++ " \x7d" ++ tail
  let head := match default with
    | some d => d ++ ", "
    | none => ""
  match wildcard, named, default with
  | some ns, [], _ => ["import " ++ head ++ "* as " ++ ns ++ tail]
  | some ns, _, _ => ["import " ++ head ++ "* as " ++ ns ++ tail, "import " ++ braces]
  | none, [], some d => ["import " ++ d ++ tail]
  | none, [], none => []
  | none, _, _ => ["import " ++ head ++ braces]

/-- What a script lacks of the requests from one module. -/
def ImportRequest.missing (group : ImportRequest) (found : Option ExistingImport) : Hoisted :=
  let (default, defaultAlias) := aliasName group.default (found.bind (·.default))
  let (wildcard, wildcardAlias) := aliasName group.wildcard (found.bind (·.wildcard))
  let known := (found.map (·.named)).getD []
  let lacking := (group.named.filter fun pair => !known.contains pair).map specifierText
  let extensionPoint := if lacking.isEmpty then none else found.bind (·.extensionPoint)
  let (named, extensions) := match extensionPoint with
    | some offset => ([], [(offset, String.join (lacking.map (", " ++ ·)))])
    | none => (lacking, [])
  { imports := importLines group.source default wildcard named
    declarations := defaultAlias ++ wildcardAlias
    extensions := extensions }

def DeclarationGroup.missing (group : DeclarationGroup) (init : String)
    (found : Option ExistingDeclaration) : List String :=
  let keyword := if group.isLet then "let " else "const "
  let knownNames := (found.map (·.names)).getD []
  let knownProperties := (found.map (·.properties)).getD []
  let named := match group.name with
    | some n => if knownNames.contains n then [] else [keyword ++ n ++ " = " ++ init]
    | none => []
  let properties := group.properties.filter fun p => !knownProperties.contains p
  let destructured :=
    if properties.isEmpty then []
    else [keyword ++ multilineObject properties ++ " = " ++ group.name.getD init]
  named ++ destructured

def Collected.hoistedFor (c : Collected) (target : Script) (settings : Settings) : Hoisted :=
  let imports := existingImports target
  let declared := existingDeclarations target
  let fromImports : Hoisted := (importGroups settings c.imports).foldl (fun code p =>
    code.append (p.2.missing (imports.get? p.1))) {}
  let fromDeclarations := (declarationGroups c.declarations).flatMap fun (init, group) =>
    group.missing init (declared.get? init)
  { fromImports with declarations := fromImports.declarations ++ fromDeclarations }

/-! ## Putting code into a script -/

def Hoisted.extend (h : Hoisted) (edits : Edits) : Edits :=
  h.extensions.foldl (fun edits (offset, text) => edits.insert offset text) edits

/-- Imports, then declarations, with a blank line between them where there are
imports. -/
def Hoisted.render (h : Hoisted) (targetHasImports : Bool) : String :=
  let gap :=
    if (targetHasImports || !h.imports.isEmpty) && !h.declarations.isEmpty then [""] else []
  "\n".intercalate (h.imports ++ gap ++ h.declarations)

/-- Where code goes in a script without imports: before its first item. -/
def Script.topOffset (s : Script) : Nat := (s.items.head?.map (·.span.start)).getD 0

/-- Inserts code after the last import, on lines of its own, or at the top. -/
def insertAfterImports (script : Script) (gap : String) (edits : Edits) (code : String) : Edits :=
  if code.isEmpty then edits
  else match script.lastImportEnd? with
    | some stop => edits.insert stop (gap ++ code)
    | none => edits.insert script.topOffset (code ++ "\n\n")

def insertHoisted (script : Script) (edits : Edits) (code : String) : Edits :=
  insertAfterImports script "\n" edits code

def insertLocal (script : Script) (edits : Edits) (code : String) : Edits :=
  insertAfterImports script "\n\n" edits code

end Recompose
