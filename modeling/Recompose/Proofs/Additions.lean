import Recompose.Code.Merge
import Recompose.Proofs.Entries

/-!
# What merging adds to a script

The code that a merge adds is a list of lines. `Additions` is what these lines say:
imports and declarations as the requests that they would be read as, and the pairs
of names that are put into imports of the script. `hoistedFor_eq_hoisted` says that
the lines of a merge are those of its additions.

What is added is put together per module and per initial value
(`Additions.OfModule`, `Additions.OfValue`) from what is asked for and what the
script has. Both are read off the requests and the items of the script directly, so
that no group and no table of the merge is needed to say what it does.
-/

namespace Recompose

open Script (Tree)

/-! ## What a script has -/

namespace Script

/-- What can be decided of scripts can be decided of the one that a text holds. -/
instance {dialect : Dialect} {source : String} {P : Script → Prop} [DecidablePred P] :
    Decidable (∃ s, read dialect source = .ok s ∧ P s) :=
  match read dialect source with
  | .ok s => decidable_of_iff (P s)
      ⟨fun hs => ⟨s, rfl, hs⟩, fun ⟨_, hread, hs⟩ => Except.ok.inj hread ▸ hs⟩
  | .error _ => isFalse fun ⟨_, hread, _⟩ => nomatch hread

def isValueImport (t : Tree) : Bool := t.kind == .importDecl false

/-- The imports of values from a module. -/
def importsFrom (s : Script) (source : String) : List Tree :=
  (s.items.filter isValueImport).filter fun decl => (ImportRequest.ofTree decl).source = source

/-- What the imports of values from a module bind. -/
def boundFrom (s : Script) (source : String) : List ImportRequest :=
  (s.importsFrom source).map ImportRequest.ofTree

def pairsFrom (s : Script) (source : String) : List (String × String) :=
  (s.boundFrom source).flatMap (·.named)

def defaultsFrom (s : Script) (source : String) : List String :=
  (s.boundFrom source).filterMap (·.default)

def wildcardsFrom (s : Script) (source : String) : List String :=
  (s.boundFrom source).filterMap (·.wildcard)

/-- The end of the last specifier of an import that has names. -/
def namedEnd? (decl : Tree) : Option Nat :=
  if (ImportRequest.ofTree decl).named.isEmpty then none
  else (decl.parts.dropLast.getLast?).map (·.span.stop)

/-- Where names from a module can be added: behind the last specifier of the
first import that has names. -/
def extensionPoint? (s : Script) (source : String) : Option Nat :=
  (s.importsFrom source).findSome? namedEnd?

/-- What a declarator gives an initial value: the text of the value, and the
pattern. -/
def initialized? (s : Script) : Tree → Option (String × Tree)
  | .node .declarator _ [pattern, init] => some (s.text init, pattern)
  | _ => none

/-- The declarators of an item that is a variable declaration. -/
def declaratorsOf : Tree → List Tree
  | .node (.declaration _) _ declarators => declarators
  | _ => []

/-- The patterns at the top of a script, with the text of their initial values. -/
def initialized (s : Script) : List (String × Tree) :=
  (s.items.flatMap declaratorsOf).filterMap s.initialized?

/-- The name that a pattern is. -/
def nameOf? (pattern : Tree) : Option String :=
  match pattern.kind with
  | .ident name => some name
  | _ => none

/-- The properties that a pattern destructures, without the rest. -/
def propertiesOf (s : Script) (pattern : Tree) : List String :=
  match pattern.kind with
  | .objectPattern => ((patternProperties pattern).filter (·.kind != .restPattern)).map s.text
  | _ => []

/-- The patterns that are given an initial value. -/
def patternsFor (s : Script) (init : String) : List Tree :=
  (s.initialized.filter (·.1 = init)).map (·.2)

def namesFor (s : Script) (init : String) : List String := (s.patternsFor init).filterMap nameOf?

def propertiesFor (s : Script) (init : String) : List String :=
  (s.patternsFor init).flatMap s.propertiesOf

end Script

/-! ## What is asked for -/

/-- The requests for a module, aliases applied. -/
def requestsFrom (settings : Settings) (requests : List ImportRequest) (source : String) :
    List ImportRequest :=
  requests.filter (settings.moduleFor ·.source = source)

/-- The requests for an initial value. -/
def requestsFor (requests : List DeclarationRequest) (init : String) : List DeclarationRequest :=
  requests.filter (·.init = init)

namespace Binding

def name? : Binding → Option String
  | name n => some n
  | properties _ => none

def texts : Binding → List String
  | name _ => []
  | properties texts => texts

@[simp] theorem name?_name (n : String) : (name n).name? = some n := rfl
@[simp] theorem name?_properties (texts : List String) : (properties texts).name? = none := rfl
@[simp] theorem texts_name (n : String) : (name n).texts = [] := rfl
@[simp] theorem texts_properties (ts : List String) : (properties ts).texts = ts := rfl

end Binding

/-! ## Code that is added -/

/-- The specifiers of an import as they are written. -/
def ImportRequest.clauses (r : ImportRequest) : List String :=
  r.default.toList ++ (r.wildcard.map ("* as " ++ ·)).toList ++
    if r.named.isEmpty then []
    else ["\x7b " ++ ", ".intercalate (r.named.map specifierText) ++ " \x7d"]

def ImportRequest.text (r : ImportRequest) : String :=
  "import " ++ ", ".intercalate r.clauses ++ " from '" ++ r.source ++ "'"

def DeclarationRequest.text (r : DeclarationRequest) : String :=
  (if r.mode = .viaLet then "let " else "const ") ++
    (match r.binding with
      | .name n => n
      | .properties texts => multilineObject texts) ++ " = " ++ r.init

/-- Pairs of names that are added to an import of the script. -/
structure Extension where
  source : String
  offset : Nat
  named : List (String × String)
deriving DecidableEq, Repr

def Extension.text (e : Extension) : String :=
  String.join (e.named.map fun pair => ", " ++ specifierText pair)

/-- What the code of a merge says. -/
structure Additions where
  imports : List ImportRequest := []
  extensions : List Extension := []
  /-- Constants for what the script imports under another name. -/
  aliases : List DeclarationRequest := []
  /-- New declarations, each with the initial value that it was asked for with. -/
  declarations : List (String × DeclarationRequest) := []
deriving DecidableEq, Repr

namespace Additions

def hoisted (a : Additions) : Hoisted where
  imports := a.imports.map (·.text)
  declarations := a.aliases.map (·.text) ++ a.declarations.map (·.2.text)
  extensions := a.extensions.map fun e => (e.offset, e.text)

/-- What is imported of a default or a wildcard that is asked for. -/
def stillWanted (wanted : Option String) (found : List String) : Option String :=
  if found.isEmpty then wanted else none

/-- The constant by which a default or a wildcard of the script gets another name. -/
def aliasFor (wanted : Option String) (found : List String) : Option DeclarationRequest :=
  match wanted, found.head? with
  | some bound, some existing =>
    if existing = bound then none else some ⟨.viaConst, existing, .name bound⟩
  | _, _ => none

/-- New imports from a module. A wildcard stands in an import without names. -/
def newImports (source : String) (default wildcard : Option String)
    (named : List (String × String)) : List ImportRequest :=
  match wildcard with
  | some _ => ⟨source, [], default, wildcard⟩ ::
      if named.isEmpty then [] else [⟨source, named, none, none⟩]
  | none => if default.isNone && named.isEmpty then [] else [⟨source, named, default, none⟩]

section OfModule

variable (settings : Settings) (requests : List ImportRequest) (target : Script) (source : String)

/-- The pairs that are asked for from a module and that the script lacks. -/
def lackingPairs : List (String × String) :=
  (((requestsFrom settings requests source).flatMap (·.named)).eraseDups).filter
    (!(target.pairsFrom source).contains ·)

def defaultAsked? : Option String := (requestsFrom settings requests source).findSome? (·.default)

def wildcardAsked? : Option String := (requestsFrom settings requests source).findSome? (·.wildcard)

/-- What is added for a module. -/
def OfModule : Additions :=
  let lacking := lackingPairs settings requests target source
  let defaults := target.defaultsFrom source
  let wildcards := target.wildcardsFrom source
  let point := if lacking.isEmpty then none else target.extensionPoint? source
  { imports := newImports source (stillWanted (defaultAsked? settings requests source) defaults)
      (stillWanted (wildcardAsked? settings requests source) wildcards)
      (if point.isSome then [] else lacking)
    extensions := (point.map (⟨source, ·, lacking⟩)).toList
    aliases := (aliasFor (defaultAsked? settings requests source) defaults).toList ++
      (aliasFor (wildcardAsked? settings requests source) wildcards).toList }

theorem declarations_ofModule : (OfModule settings requests target source).declarations = [] := rfl

end OfModule

section OfValue

variable (requests : List DeclarationRequest) (target : Script) (init : String)

/-- `let` if one of the requests is. -/
def modeFor : Script.BindingMode :=
  if (requestsFor requests init).any (·.mode == .viaLet) then .viaLet else .viaConst

def nameAsked? : Option String := (requestsFor requests init).findSome? (·.binding.name?)

/-- The properties that are asked for of an initial value and that the script lacks. -/
def lackingProperties : List String :=
  (((requestsFor requests init).flatMap (·.binding.texts)).eraseDups).filter
    (!(target.propertiesFor init).contains ·)

/-- The declaration of the lacking properties, which are taken from the name of the
value if one is asked for. -/
def destructuring : DeclarationRequest :=
  ⟨modeFor requests init, (nameAsked? requests init).getD init,
    .properties (lackingProperties requests target init)⟩

/-- What is declared for an initial value. -/
def OfValue : List DeclarationRequest :=
  (((nameAsked? requests init).filter (!(target.namesFor init).contains ·)).map
      (⟨modeFor requests init, init, .name ·⟩)).toList ++
    if (lackingProperties requests target init).isEmpty then []
    else [destructuring requests target init]

end OfValue

end Additions

namespace Collected

/-- The modules that are imported from, in the order of first request. -/
def modules (c : Collected) (settings : Settings) : List String :=
  (c.imports.map (settings.moduleFor ·.source)).eraseDups

/-- The initial values that are declared with, in the order of first request. -/
def values (c : Collected) : List String := (c.declarations.map (·.init)).eraseDups

/-- What merging adds to a script. -/
def additions (c : Collected) (target : Script) (settings : Settings) : Additions where
  imports := (c.modules settings).flatMap fun source =>
    (Additions.OfModule settings c.imports target source).imports
  extensions := (c.modules settings).flatMap fun source =>
    (Additions.OfModule settings c.imports target source).extensions
  aliases := (c.modules settings).flatMap fun source =>
    (Additions.OfModule settings c.imports target source).aliases
  declarations := c.values.flatMap fun init =>
    (Additions.OfValue c.declarations target init).map (init, ·)

end Collected

/-! ## The tables of a merge -/

/-- What the requests of one module come to. -/
theorem foldl_merge (source : String) (requests : List ImportRequest) :
    requests.foldl ImportRequest.merge { source := source }
      = { source := source
          named := (requests.flatMap (·.named)).eraseDups
          default := requests.findSome? (·.default)
          wildcard := requests.findSome? (·.wildcard) } := by
  induction requests using List.reverseRecOn with
  | nil => rfl
  | append_singleton requests r ih =>
      rw [List.foldl_append, ih]
      simp only [List.foldl_cons, List.foldl_nil, ImportRequest.merge, List.flatMap_append,
        List.findSome?_append, List.flatMap_singleton, List.findSome?_singleton,
        Entries.foldl_add_eq_eraseDups]

/-- What the imports of one module come to. -/
theorem foldl_addImport (decls : List Tree) :
    decls.foldl (fun e decl => ExistingImport.add e decl (ImportRequest.ofTree decl)) {}
      = { named := (decls.map ImportRequest.ofTree).flatMap (·.named)
          default := ((decls.map ImportRequest.ofTree).filterMap (·.default)).head?
          wildcard := ((decls.map ImportRequest.ofTree).filterMap (·.wildcard)).head?
          extensionPoint := decls.findSome? Script.namedEnd? } := by
  induction decls using List.reverseRecOn with
  | nil => rfl
  | append_singleton decls decl ih =>
      rw [List.foldl_append, ih]
      simp [ExistingImport.add, Script.namedEnd?, List.head?_filterMap, List.findSome?_append]

/-- What the requests for one initial value come to. -/
theorem foldl_addRequest (requests : List DeclarationRequest) :
    requests.foldl DeclarationGroup.add {}
      = { isLet := requests.any (·.mode == .viaLet)
          name := requests.findSome? (·.binding.name?)
          properties := (requests.flatMap (·.binding.texts)).eraseDups } := by
  induction requests using List.reverseRecOn with
  | nil => rfl
  | append_singleton requests r ih =>
      have hproperties := Entries.foldl_add_eq_eraseDups (requests.flatMap (·.binding.texts))
        r.binding.texts
      rw [List.foldl_append, ih]
      obtain ⟨mode, init, binding⟩ := r
      cases binding with
      | name n => simp [DeclarationGroup.add, List.findSome?_append]
      | properties texts =>
          simpa [DeclarationGroup.add, List.findSome?_append] using hproperties

/-- Takes in one more pattern. -/
def ExistingDeclaration.add (target : Script) (e : ExistingDeclaration) (pattern : Tree) :
    ExistingDeclaration where
  names := e.names ++ (Script.nameOf? pattern).toList
  properties := e.properties ++ target.propertiesOf pattern

theorem foldl_addPattern (target : Script) (patterns : List Tree) :
    patterns.foldl (ExistingDeclaration.add target) {}
      = { names := patterns.filterMap Script.nameOf?
          properties := patterns.flatMap target.propertiesOf } := by
  induction patterns using List.reverseRecOn with
  | nil => rfl
  | append_singleton patterns pattern ih =>
      rw [List.foldl_append, ih]
      cases h : Script.nameOf? pattern <;> simp [ExistingDeclaration.add, h]

theorem addDeclarator_eq (target : Script) (found : Entries ExistingDeclaration) (t : Tree) :
    addDeclarator target found t
      = match target.initialized? t with
        | some p => found.update p.1 {} (·.add target p.2)
        | none => found := by
  unfold addDeclarator
  split
  · rename_i span pattern init
    have hsome : target.initialized? (.node .declarator span [pattern, init])
        = some (target.text init, pattern) := rfl
    rw [hsome]
    simp only
    congr 1
    funext e
    unfold ExistingDeclaration.add Script.nameOf? Script.propertiesOf
    split <;> simp_all
  · rename_i hother
    have hnone : target.initialized? t = none := by
      unfold Script.initialized?
      split
      · exact absurd rfl (hother _ _ _)
      · rfl
    rw [hnone]

theorem foldl_addDeclarator (target : Script) (found : Entries ExistingDeclaration)
    (declarators : List Tree) :
    declarators.foldl (addDeclarator target) found
      = (declarators.filterMap target.initialized?).foldl (fun found p =>
          found.update p.1 {} (ExistingDeclaration.add target · p.2)) found := by
  rw [List.foldl_filterMap]
  congr 1
  funext found t
  rw [addDeclarator_eq]
  cases target.initialized? t <;> rfl

theorem existingDeclarations_eq_group (target : Script) :
    existingDeclarations target
      = Entries.group (·.1) (fun _ => {}) (fun e p => ExistingDeclaration.add target e p.2)
          target.initialized := by
  unfold Entries.group Script.initialized existingDeclarations
  rw [List.filterMap_flatMap, List.foldl_flatMap]
  congr 1
  funext found item
  rw [← foldl_addDeclarator]
  obtain ⟨kind, span, declarators⟩ := item
  cases kind <;> rfl

/-- What a script imports from a module. -/
def importedFrom (target : Script) (source : String) : ExistingImport where
  named := target.pairsFrom source
  default := (target.defaultsFrom source).head?
  wildcard := (target.wildcardsFrom source).head?
  extensionPoint := target.extensionPoint? source

theorem existingImports_eq_group (target : Script) :
    existingImports target
      = Entries.group (fun decl => (ImportRequest.ofTree decl).source) (fun _ => {})
          (fun e decl => e.add decl (ImportRequest.ofTree decl))
          (target.items.filter Script.isValueImport) := rfl

theorem existingImports_get? (target : Script) (source : String) :
    (existingImports target).get? source = some (importedFrom target source) ∨
      (existingImports target).get? source = none ∧ importedFrom target source = {} := by
  have hgathered : Entries.gathered (fun decl => (ImportRequest.ofTree decl).source) (fun _ => {})
      (fun e decl => e.add decl (ImportRequest.ofTree decl))
      (target.items.filter Script.isValueImport) source = importedFrom target source :=
    foldl_addImport _
  rw [existingImports_eq_group, ← hgathered]
  exact Entries.get?_group_or ..

/-- What a script declares with an initial value. -/
def declaredWith (target : Script) (init : String) : ExistingDeclaration where
  names := target.namesFor init
  properties := target.propertiesFor init

theorem existingDeclarations_get? (target : Script) (init : String) :
    (existingDeclarations target).get? init = some (declaredWith target init) ∨
      (existingDeclarations target).get? init = none ∧ declaredWith target init = {} := by
  have hgathered : Entries.gathered (·.1) (fun _ => {})
      (fun e p => ExistingDeclaration.add target e p.2) target.initialized init
        = declaredWith target init := by
    have hfold := foldl_addPattern target (target.patternsFor init)
    rw [Script.patternsFor, List.foldl_map] at hfold
    exact hfold
  rw [existingDeclarations_eq_group, ← hgathered]
  exact Entries.get?_group_or ..

/-! ## The lines of a merge -/

namespace Additions

theorem aliasName_eq (wanted : Option String) (found : List String) :
    aliasName wanted found.head?
      = (stillWanted wanted found, (aliasFor wanted found).toList.map (·.text)) := by
  cases wanted with
  | none => cases found <;> rfl
  | some bound =>
    cases found with
    | nil => rfl
    | cons existing found =>
        by_cases h : existing = bound
        · simp [aliasName, stillWanted, aliasFor, h]
        · simp [aliasName, stillWanted, aliasFor, h, DeclarationRequest.text]

theorem importLines_eq (source : String) (default wildcard : Option String)
    (named : List (String × String)) :
    importLines source default wildcard (named.map specifierText)
      = (newImports source default wildcard named).map (·.text) := by
  have halone (tail : String) : "import " ++ ("* as " ++ tail) = "import * as " ++ tail :=
    (String.append_assoc ..).symm
  have hsecond (tail : String) : ", " ++ ("* as " ++ tail) = ", * as " ++ tail :=
    (String.append_assoc ..).symm
  cases wildcard <;> cases named <;> cases default <;>
    simp [importLines, newImports, ImportRequest.text, ImportRequest.clauses, String.append_assoc,
      halone, hsecond]

theorem missing_imports (settings : Settings) (requests : List ImportRequest) (target : Script)
    (source : String) :
    ((requestsFrom settings requests source).foldl ImportRequest.merge { source := source }).missing
        ((existingImports target).get? source)
      = (OfModule settings requests target source).hoisted := by
  have hfound : ∀ g : ImportRequest, g.missing ((existingImports target).get? source)
      = g.missing (some (importedFrom target source)) := by
    intro g
    rcases existingImports_get? target source with h | ⟨h, hfresh⟩
    · rw [h]
    · rw [h, hfresh]
      rfl
  have hlacking : ((((requestsFrom settings requests source).flatMap (·.named)).eraseDups).filter
      fun pair => !(target.pairsFrom source).contains pair)
      = lackingPairs settings requests target source := rfl
  have hempty : ((lackingPairs settings requests target source).map specifierText).isEmpty
      = (lackingPairs settings requests target source).isEmpty := List.isEmpty_map ..
  rw [hfound, foldl_merge]
  simp only [ImportRequest.missing, importedFrom, Option.bind_some, Option.map_some,
    Option.getD_some, aliasName_eq, hlacking, hempty, OfModule, Additions.hoisted,
    ← importLines_eq]
  generalize (if (lackingPairs settings requests target source).isEmpty then none
    else target.extensionPoint? source) = point
  cases point <;>
    simp [defaultAsked?, wildcardAsked?, Extension.text, Function.comp_def]

theorem missing_declarations (requests : List DeclarationRequest) (target : Script)
    (init : String) :
    ((requestsFor requests init).foldl DeclarationGroup.add {}).missing init
        ((existingDeclarations target).get? init)
      = (OfValue requests target init).map (·.text) := by
  have hfound : ∀ g : DeclarationGroup, g.missing init ((existingDeclarations target).get? init)
      = g.missing init (some (declaredWith target init)) := by
    intro g
    rcases existingDeclarations_get? target init with h | ⟨h, hfresh⟩
    · rw [h]
    · rw [h, hfresh]
      rfl
  have hkeyword : (if (requestsFor requests init).any (·.mode == .viaLet) then "let " else "const ")
      = if modeFor requests init = .viaLet then "let " else "const " := by
    unfold modeFor
    cases (requestsFor requests init).any (·.mode == .viaLet) <;> rfl
  have hname : (requestsFor requests init).findSome? (·.binding.name?) = nameAsked? requests init :=
    rfl
  have hlacking : (((requestsFor requests init).flatMap (·.binding.texts)).eraseDups).filter
      (fun p => !(target.propertiesFor init).contains p) = lackingProperties requests target init :=
    rfl
  rw [hfound, foldl_addRequest]
  simp only [DeclarationGroup.missing, Option.map_some, Option.getD_some, declaredWith, OfValue,
    destructuring, hkeyword, hname, hlacking, List.map_append]
  congr 1
  · cases nameAsked? requests init with
    | none => rfl
    | some n =>
      by_cases h : n ∈ target.namesFor init <;> simp [h, Option.filter, DeclarationRequest.text]
  · generalize lackingProperties requests target init = lacking
    cases lacking <;> rfl

theorem foldl_append {α : Type} (f : α → Hoisted) (xs : List α) :
    xs.foldl (fun code x => Hoisted.append code (f x)) {}
      = { imports := xs.flatMap fun x => (f x).imports
          declarations := xs.flatMap fun x => (f x).declarations
          extensions := xs.flatMap fun x => (f x).extensions } := by
  induction xs using List.reverseRecOn with
  | nil => rfl
  | append_singleton xs x ih =>
      rw [List.foldl_append, ih]
      simp [Hoisted.append]

end Additions

theorem importGroups_eq_map (settings : Settings) (requests : List ImportRequest) :
    importGroups settings requests
      = ((requests.map (settings.moduleFor ·.source)).eraseDups).map fun source =>
          (source, (requestsFrom settings requests source).foldl ImportRequest.merge
            { source := source }) := by
  have hgroup : importGroups settings requests
      = Entries.group (settings.moduleFor ·.source) ({ source := · }) ImportRequest.merge
          requests := rfl
  rw [hgroup, Entries.group_eq_map]
  rfl

theorem declarationGroups_eq_map (requests : List DeclarationRequest) :
    declarationGroups requests
      = ((requests.map (·.init)).eraseDups).map fun init =>
          (init, (requestsFor requests init).foldl DeclarationGroup.add {}) := by
  have hgroup : declarationGroups requests
      = Entries.group (·.init) (fun _ => {}) DeclarationGroup.add requests := rfl
  rw [hgroup, Entries.group_eq_map]
  rfl

theorem Collected.hoistedFor_eq_hoisted (c : Collected) (target : Script) (settings : Settings) :
    c.hoistedFor target settings = (c.additions target settings).hoisted := by
  unfold Collected.hoistedFor
  simp only [importGroups_eq_map, declarationGroups_eq_map, List.foldl_map, List.flatMap_map,
    Additions.missing_imports, Additions.missing_declarations, Additions.foldl_append]
  simp [Collected.additions, Collected.modules, Collected.values, Additions.hoisted,
    List.map_flatMap, Additions.declarations_ofModule, Function.comp_def]

/-! ## What is added for one module or one value -/

namespace Additions

section OneModule

variable {settings : Settings} {requests : List ImportRequest} {target : Script} {source : String}

theorem ofModule_of_not_mem (h : source ∉ requests.map (settings.moduleFor ·.source)) :
    OfModule settings requests target source = {} := by
  have hnone : requestsFrom settings requests source = [] := by
    rw [requestsFrom, List.filter_eq_nil_iff]
    intro r hr hsource
    exact h (List.mem_map.mpr ⟨r, hr, of_decide_eq_true hsource⟩)
  have hlacking : lackingPairs settings requests target source = [] := by
    rw [lackingPairs, hnone]
    rfl
  simp [OfModule, hlacking, defaultAsked?, wildcardAsked?, hnone, stillWanted, aliasFor, newImports]

theorem source_of_mem_newImports {default wildcard : Option String}
    {named : List (String × String)} {r : ImportRequest}
    (h : r ∈ newImports source default wildcard named) : r.source = source := by
  unfold newImports at h
  split at h
  · rcases List.mem_cons.mp h with rfl | h
    · rfl
    · split at h
      · cases h
      · rw [List.mem_singleton.mp h]
  · split at h
    · cases h
    · rw [List.mem_singleton.mp h]

end OneModule

section NewImports

variable (source : String) (default wildcard : Option String) (named : List (String × String))

theorem filterMap_default_newImports :
    (newImports source default wildcard named).filterMap (·.default) = default.toList := by
  cases default <;> cases wildcard <;> cases named <;> rfl

theorem filterMap_wildcard_newImports :
    (newImports source default wildcard named).filterMap (·.wildcard) = wildcard.toList := by
  cases default <;> cases wildcard <;> cases named <;> rfl

theorem flatMap_named_newImports :
    (newImports source default wildcard named).flatMap (·.named) = named := by
  cases default <;> cases wildcard <;> cases named <;> simp [newImports]

end NewImports

/-- A name that is asked for is declared unless the script declares it. -/
theorem name_mem_ofValue {requests : List DeclarationRequest} {target : Script}
    {init name : String} (h : nameAsked? requests init = some name)
    (hlacking : name ∉ target.namesFor init) :
    ⟨modeFor requests init, init, .name name⟩ ∈ OfValue requests target init := by
  simp [OfValue, h, hlacking, Option.filter]

theorem destructuring_mem_ofValue {requests : List DeclarationRequest} {target : Script}
    {init property : String} (h : property ∈ lackingProperties requests target init) :
    destructuring requests target init ∈ OfValue requests target init := by
  simp [OfValue, List.ne_nil_of_mem h]

theorem ofValue_of_not_mem {requests : List DeclarationRequest} {target : Script} {init : String}
    (h : init ∉ requests.map (·.init)) : OfValue requests target init = [] := by
  have hnone : requestsFor requests init = [] := by
    rw [requestsFor, List.filter_eq_nil_iff]
    intro r hr hinit
    exact h (List.mem_map.mpr ⟨r, hr, of_decide_eq_true hinit⟩)
  have hlacking : lackingProperties requests target init = [] := by
    rw [lackingProperties, hnone]
    rfl
  simp [OfValue, hlacking, nameAsked?, hnone]

end Additions

namespace Collected

variable (c : Collected) (target : Script) (settings : Settings)

theorem filter_imports_additions (source : String) :
    (c.additions target settings).imports.filter (·.source = source)
      = (Additions.OfModule settings c.imports target source).imports := by
  refine Entries.filter_flatMap_names (Entries.nodup_eraseDups _) ?_ ?_
  · intro source r hr
    exact Additions.source_of_mem_newImports hr
  · intro h
    rw [Additions.ofModule_of_not_mem fun hmem => h (List.mem_eraseDups.mpr hmem)]

theorem filter_extensions_additions (source : String) :
    (c.additions target settings).extensions.filter (·.source = source)
      = (Additions.OfModule settings c.imports target source).extensions := by
  refine Entries.filter_flatMap_names (Entries.nodup_eraseDups _) ?_ ?_
  · intro source e he
    obtain ⟨offset, -, rfl⟩ := Option.map_eq_some_iff.mp (Option.mem_toList.mp he)
    rfl
  · intro h
    rw [Additions.ofModule_of_not_mem fun hmem => h (List.mem_eraseDups.mpr hmem)]

theorem filter_declarations_additions (init : String) :
    (c.additions target settings).declarations.filter (·.1 = init)
      = (Additions.OfValue c.declarations target init).map (init, ·) := by
  refine Entries.filter_flatMap_names (Entries.nodup_eraseDups _) ?_ ?_
  · intro init d hd
    obtain ⟨r, -, rfl⟩ := List.mem_map.mp hd
    rfl
  · intro h
    rw [Additions.ofValue_of_not_mem fun hmem => h (List.mem_eraseDups.mpr hmem)]
    rfl

variable {c target settings} {source init : String}

theorem mem_imports_additions {r : ImportRequest}
    (h : r ∈ (Additions.OfModule settings c.imports target source).imports) :
    r ∈ (c.additions target settings).imports := by
  rw [← filter_imports_additions] at h
  exact (List.mem_filter.mp h).1

theorem mem_extensions_additions {e : Extension}
    (h : e ∈ (Additions.OfModule settings c.imports target source).extensions) :
    e ∈ (c.additions target settings).extensions := by
  rw [← filter_extensions_additions] at h
  exact (List.mem_filter.mp h).1

theorem mem_aliases_additions {r : DeclarationRequest}
    (h : r ∈ (Additions.OfModule settings c.imports target source).aliases) :
    r ∈ (c.additions target settings).aliases := by
  by_cases hsource : source ∈ c.imports.map (settings.moduleFor ·.source)
  · exact List.mem_flatMap.mpr ⟨source, List.mem_eraseDups.mpr hsource, h⟩
  · rw [Additions.ofModule_of_not_mem hsource] at h
    cases h

theorem mem_declarations_additions {r : DeclarationRequest}
    (h : r ∈ Additions.OfValue c.declarations target init) :
    (init, r) ∈ (c.additions target settings).declarations := by
  have hmem : (init, r) ∈ (c.additions target settings).declarations.filter (·.1 = init) := by
    rw [filter_declarations_additions]
    exact List.mem_map.mpr ⟨r, h, rfl⟩
  exact (List.mem_filter.mp hmem).1

/-- A pair that is asked for and lacking is added to an import or imported. -/
theorem exists_of_mem_lackingPairs {pair : String × String}
    (h : pair ∈ Additions.lackingPairs settings c.imports target source) :
    (∃ r ∈ (c.additions target settings).imports, r.source = source ∧ pair ∈ r.named) ∨
      ∃ e ∈ (c.additions target settings).extensions, e.source = source ∧ pair ∈ e.named := by
  have hsome : (Additions.lackingPairs settings c.imports target source).isEmpty = false :=
    List.isEmpty_eq_false_iff.mpr (List.ne_nil_of_mem h)
  cases hpoint : target.extensionPoint? source with
  | none =>
      have hnamed : pair ∈ ((Additions.OfModule settings c.imports target source).imports).flatMap
          (·.named) := by
        simpa [Additions.OfModule, hsome, hpoint, Additions.flatMap_named_newImports] using h
      obtain ⟨r, hr, hpair⟩ := List.mem_flatMap.mp hnamed
      exact .inl ⟨r, mem_imports_additions hr, Additions.source_of_mem_newImports hr, hpair⟩
  | some offset =>
      have hadded : ⟨source, offset, Additions.lackingPairs settings c.imports target source⟩
          ∈ (Additions.OfModule settings c.imports target source).extensions := by
        simp [Additions.OfModule, hsome, hpoint]
      exact .inr ⟨_, mem_extensions_additions hadded, rfl, h⟩

end Collected

end Recompose
