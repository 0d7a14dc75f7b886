import Recompose.Script.Grammar.Statements

/-!
# Modules

Imports, exports and whole scripts.
-/

namespace Recompose.Script

open Recompose.Script.Parser

namespace Rules

/-! ## Imports -/

/-- A name of another module: a word or a string. -/
def moduleName : Parser Tree := do
  match ← kind with
  | .string _ => stringLiteral
  | _ => Parser.propertyName

/-- Whether the next token can name something of another module. -/
def followedByModuleName : Parser Bool := do
  match (← following).kind with
  | .word _ _ | .string _ => return true
  | _ => return false

/-- Whether `type` at the cursor marks the imported name that follows. It is
that name itself in `type as x`, but not in `type as as x`. -/
def marksImport (r : Rules) : Parser Bool := do
  let next ← following
  let marks ← lookahead do
    advance
    let _ ← moduleName
    if next.kind == .word "as" false then
      -- `type as` alone, or `type as as x`.
      unless (← atAnyPunct [",", "\x7d"]) || (← atWord "as") do unexpected
  return r.dialect.typescript && (← atWord "type") && (← followedByModuleName) && marks.isSome

def importSpecifier (r : Rules) : Parser Tree := do
  let start ← position
  advanceIf (← r.marksImport)
  let imported ← moduleName
  if ← eatWord "as" then
    let bound ← bindingName
    return ← node .importNamed start [imported, bound]
  match imported.kind with
  | .ident name =>
    if reservedWords.contains name then blame imported.span
    node .importNamed start [imported]
  | _ => unexpected

def importAttributes (r : Rules) : Parser Unit := do
  if (← atWord "with") || ((← atWord "assert") && !(← afterNewline)) then
    advance
    let _ ← r.objectLiteral {}

def importedDefault : Parser (List Tree) := do
  match ← kind with
  | .word _ _ =>
    let start ← position
    let name ← bindingName
    return [← node .importDefault start [name]]
  | _ => return []

/-- What an import names, but for the default. -/
def importedNames (r : Rules) : Parser (List Tree) := do
  let start ← position
  if ← eat "*" then
    expectWord "as"
    let name ← bindingName
    return [← node .importNamespace start [name]]
  expect "\x7b"
  commaSeparated r.limit "\x7d" r.importSpecifier

def importClause (r : Rules) : Parser (List Tree) := do
  let first ← importedDefault
  if first.isEmpty then r.importedNames
  else if ← eat "," then return first ++ (← r.importedNames)
  else return first

/-- Whether `type` at the cursor makes the whole import one of types. -/
def importsTypes (r : Rules) : Parser Bool := do
  if !r.dialect.typescript || !(← atWord "type") then return false
  let next ← following
  match next.kind with
  | .punct t => return t == "\x7b" || t == "*"
  | .word "from" _ =>
    -- `import type from 'x'` binds the name `type`.
    let found ← lookahead do
      advance
      advance
      expectWord "from"
    return found.isSome
  | .word _ _ => return true
  | _ => return false

/-- What an alias for a namespace stands for. -/
def aliased (r : Rules) : Parser Unit := do
  if (← atWord "require") && (← followedByPunct ["("]) then
    advance
    expect "("
    let _ ← stringLiteral
    expect ")"
  else
    let _ ← r.typeReference {}

def importAliasRest (r : Rules) (start : Nat) : Parser Tree := do
  expect "="
  r.aliased
  endStatement
  node .statement start []

def importDeclaration (r : Rules) : Parser Tree := do
  let start ← position
  expectWord "import"
  if let .string _ ← kind then
    let source ← stringLiteral
    r.importAttributes
    endStatement
    return ← node (.importDecl false) start [source]
  let typeOnly ← r.importsTypes
  advanceIf typeOnly
  if r.dialect.typescript && (← followedByPunct ["="]) then
    let _ ← bindingName
    return ← r.importAliasRest start
  let names ← r.importClause
  expectWord "from"
  let source ← stringLiteral
  r.importAttributes
  endStatement
  node (.importDecl typeOnly) start (names ++ [source])

/-! ## Exports -/

def defaultDeclaration? (r : Rules) : Parser (Option Tree) := do
  let start ← position
  if ← atWord "function" then return some (← r.functionFrom start false false false)
  if ← atWord "class" then return some (← r.classFrom {} start false)
  if ← startsAsyncFunction then
    advance
    return some (← r.functionFrom start true false false)
  if r.dialect.typescript && (← atWord "abstract") &&
      (← following).kind == .word "class" false then
    advance
    return some (← r.classFrom {} start false)
  if r.dialect.typescript && (← atWord "interface") && (← followedByName) then
    advance
    return some (← r.interfaceRest {} start)
  return none

/-- The default export from its first word after `default` on. -/
def defaultExport (r : Rules) (start : Nat) : Parser Tree := do
  match ← r.defaultDeclaration? with
  | some tree => node .exportDefaultDecl start [tree]
  | none =>
    let value ← r.assignment {}
    endStatement
    node .exportDefault start [value]

def exportedAs : Parser Unit := do
  if ← eatWord "as" then
    let _ ← moduleName

/-- Whether `type` at the cursor marks the exported name that follows. -/
def marksExport (r : Rules) : Parser Bool := do
  let marks ← lookahead do
    advance
    let _ ← moduleName
    if !(← atAnyPunct [",", "\x7d"]) then expectWord "as"
  return r.dialect.typescript && (← atWord "type") && (← followedByModuleName) && marks.isSome &&
    (← following).kind != .word "as" false

def exportSpecifier (r : Rules) : Parser Unit := do
  advanceIf (← r.marksExport)
  let _ ← moduleName
  exportedAs

def exportSource (r : Rules) : Parser Unit := do
  expectWord "from"
  let _ ← stringLiteral
  r.importAttributes
  endStatement

def exportEnd (r : Rules) : Parser Unit := do
  if ← atWord "from" then r.exportSource else endStatement

/-- An export that only types have, if one stands here. The word that makes all
exported names types is skipped. -/
def typeExport? (r : Rules) (start : Nat) : Parser (Option Tree) := do
  if !r.dialect.typescript then return none
  if ← eat "=" then
    let value ← r.expression {}
    endStatement
    return some (← node .statement start [value])
  if (← atWord "as") && (← following).kind == .word "namespace" false then
    advance
    advance
    let _ ← bindingName
    endStatement
    return some (← node .statement start [])
  advanceIf ((← atWord "type") && (← followedByPunct ["\x7b", "*"]))
  if ← atWord "import" then
    let inner ← r.importDeclaration
    return some (← node .statement start [inner])
  return none

/-- Whether a declaration stands here, which alone may be exported. -/
def declares (r : Rules) : Parser Bool := do
  let binds := (← bindingMode?).isSome
  let words ← atAnyWord ["function", "class", "async"]
  let types ← atAnyWord ["interface", "type", "enum", "abstract", "namespace", "module", "declare",
    "global"]
  return binds || words || (r.dialect.typescript && types)

def exportDeclaration (r : Rules) : Parser Tree := do
  let start ← position
  expectWord "export"
  if ← eatWord "default" then return ← r.defaultExport start
  if let some tree ← r.typeExport? start then return tree
  if ← eat "*" then
    exportedAs
    r.exportSource
    return ← node .statement start []
  if ← eat "\x7b" then
    let _ ← commaSeparated r.limit "\x7d" r.exportSpecifier
    r.exportEnd
    return ← node .statement start []
  unless ← r.declares do unexpected
  let inner ← r.anyStatement {}
  match inner.kind with
  | .exprStmt => blame inner.span
  | _ => node .statement start [inner]

/-! ## Scripts -/

def moduleItem (r : Rules) : Parser Tree := do
  if ← atWord "export" then return ← r.exportDeclaration
  if (← atWord "import") && !(← followedByPunct ["(", "."]) then return ← r.importDeclaration
  r.anyStatement {}

/-- A statement inside a block, where exports may stand only in a namespace. -/
def nestedStatement (r : Rules) (c : Context) : Parser Tree := do
  if r.dialect.typescript && (← atWord "export") then return ← r.exportDeclaration
  r.anyStatement c

def moduleItems (r : Rules) : Parser (List Tree) :=
  loop r.limit (fun items => do
    if ← atDone then return .done items.reverse
    else return .more ((← r.moduleItem) :: items)) []

end Rules

end Recompose.Script
