import Recompose.Proofs.Additions
import Recompose.Proofs.Collected

/-!
# How requests are merged

Names from a module are added in one place: to an import of the script, or in one
line of code. Properties of an initial value are destructured by one declaration.
Both are what is asked for and the script lacks, each once and in the order of first
request (`hoistedFor_isExact`).

The properties of a script are those that its variable declarations destructure. Rest
elements do not count as such, and neither do declarations that are exported: what
they bind is declared again (`hoistedFor_restAndExport`).
-/

namespace Recompose

open Script (Tree)

/-! ## Where requests end up -/

/-- The insertion that adds names to an import. -/
def Extension.edit (e : Extension) : Edit := ⟨Span.point e.offset, e.text⟩

namespace Additions

/-- The names that are added to imports from a module. -/
def extensionsOf (a : Additions) (source : String) : List Extension :=
  a.extensions.filter (·.source = source)

/-- The new imports of names from a module. -/
def namedImportsOf (a : Additions) (source : String) : List ImportRequest :=
  (a.imports.filter (·.source = source)).filter (!·.named.isEmpty)

/-- The declarations that destructure properties asked for of an initial value. -/
def destructuringsOf (a : Additions) (init : String) : List DeclarationRequest :=
  ((a.declarations.filter (·.1 = init)).map (·.2)).filter (·.binding.name?.isNone)

end Additions

theorem Extension.text_isEmpty {e : Extension} (h : e.named ≠ []) : e.text.isEmpty = false := by
  rw [← Bool.not_eq_true, String.isEmpty_iff, Extension.text]
  intro hempty
  have hchars := congrArg String.toList hempty
  cases hnamed : e.named with
  | nil => exact h hnamed
  | cons pair named => simp [hnamed] at hchars

theorem Extension.recorded_insert {extensions : List Extension} (edits : Edits)
    (h : ∀ e ∈ extensions, e.named ≠ []) :
    ((extensions.map fun e => (e.offset, e.text)).foldl
        (fun edits (p : Nat × String) => edits.insert p.1 p.2) edits).recorded
      = edits.recorded ++ extensions.map Extension.edit := by
  induction extensions generalizing edits with
  | nil => simp
  | cons e extensions ih =>
      have he := Extension.text_isEmpty (h e (List.mem_cons_self ..))
      rw [List.map_cons, List.foldl_cons, ih _ fun e he => h e (List.mem_cons_of_mem _ he)]
      simp [Edits.insert, he, Edits.push, Extension.edit]

namespace Collected

variable (c : Collected) (target : Script) (settings : Settings)

theorem named_ne_nil_of_mem_extensions {e : Extension}
    (h : e ∈ (c.additions target settings).extensions) : e.named ≠ [] := by
  obtain ⟨source, -, he⟩ := List.mem_flatMap.mp h
  obtain ⟨offset, hpoint, rfl⟩ := Option.map_eq_some_iff.mp (Option.mem_toList.mp he)
  simp only [List.isEmpty_iff] at hpoint
  split at hpoint
  · cases hpoint
  · assumption

/-- Each extension is recorded as one insertion. -/
theorem recorded_extend (edits : Edits) :
    ((c.hoistedFor target settings).extend edits).recorded
      = edits.recorded ++ (c.additions target settings).extensions.map Extension.edit := by
  rw [hoistedFor_eq_hoisted]
  exact Extension.recorded_insert edits
    fun e he => named_ne_nil_of_mem_extensions c target settings he

theorem extensionsOf_additions (source : String) :
    (c.additions target settings).extensionsOf source
      = if (Additions.lackingPairs settings c.imports target source).isEmpty then []
        else (target.extensionPoint? source).toList.map
          (⟨source, ·, Additions.lackingPairs settings c.imports target source⟩) := by
  rw [Additions.extensionsOf, filter_extensions_additions, Additions.OfModule]
  split <;> cases target.extensionPoint? source <;> simp_all

theorem namedImportsOf_additions (source : String) :
    ((c.additions target settings).namedImportsOf source).map (·.named)
      = if (Additions.lackingPairs settings c.imports target source).isEmpty ∨
          (target.extensionPoint? source).isSome then []
        else [Additions.lackingPairs settings c.imports target source] := by
  have hnew : ∀ default wildcard (named : List (String × String)),
      ((Additions.newImports source default wildcard named).filter (!·.named.isEmpty)).map (·.named)
        = if named.isEmpty then [] else [named] := by
    intro default wildcard named
    cases default <;> cases wildcard <;> cases named <;> rfl
  rw [Additions.namedImportsOf, filter_imports_additions, Additions.OfModule, hnew]
  cases target.extensionPoint? source <;>
    cases Additions.lackingPairs settings c.imports target source <;> simp

theorem destructuringsOf_additions (init : String) :
    (c.additions target settings).destructuringsOf init
      = if (Additions.lackingProperties c.declarations target init).isEmpty then []
        else [Additions.destructuring c.declarations target init] := by
  rw [Additions.destructuringsOf, filter_declarations_additions, List.map_map]
  have hsnd : (·.2) ∘ (fun r : DeclarationRequest => (init, r)) = id := rfl
  rw [hsnd, List.map_id, Additions.OfValue, List.filter_append]
  have hname : (((Additions.nameAsked? c.declarations init).filter
      (!(target.namesFor init).contains ·)).map fun n =>
        (⟨Additions.modeFor c.declarations init, init, .name n⟩ : DeclarationRequest)).toList.filter
          (·.binding.name?.isNone) = [] := by
    rw [List.filter_eq_nil_iff]
    intro r hr
    obtain ⟨n, -, rfl⟩ := Option.map_eq_some_iff.mp (Option.mem_toList.mp hr)
    simp
  rw [hname, List.nil_append]
  split <;> rfl

end Collected

/-! ## Merging is exact -/

namespace Additions

theorem mem_lackingPairs {settings : Settings} {requests : List ImportRequest} {target : Script}
    {source : String} {pair : String × String} :
    pair ∈ lackingPairs settings requests target source ↔
      (∃ r ∈ requests, settings.moduleFor r.source = source ∧ pair ∈ r.named) ∧
        ∀ decl ∈ target.items, decl.kind = .importDecl false →
          (ImportRequest.ofTree decl).source = source → pair ∉ (ImportRequest.ofTree decl).named := by
  have hasked : pair ∈ (requestsFrom settings requests source).flatMap (·.named) ↔
      ∃ r ∈ requests, settings.moduleFor r.source = source ∧ pair ∈ r.named := by
    simp [requestsFrom, and_assoc]
  have hhad : pair ∈ target.pairsFrom source ↔ ∃ decl ∈ target.items,
      decl.kind = .importDecl false ∧ (ImportRequest.ofTree decl).source = source ∧
        pair ∈ (ImportRequest.ofTree decl).named := by
    simp [Script.pairsFrom, Script.boundFrom, Script.importsFrom, Script.isValueImport, and_assoc,
      and_left_comm]
  rw [lackingPairs, List.mem_filter, List.mem_eraseDups, hasked]
  simp [hhad]

theorem mem_lackingProperties {requests : List DeclarationRequest} {target : Script}
    {init property : String} :
    property ∈ lackingProperties requests target init ↔
      (∃ r ∈ requests, r.init = init ∧ property ∈ r.binding.texts) ∧
        ∀ pattern ∈ target.patternsFor init, property ∉ target.propertiesOf pattern := by
  have hasked : property ∈ (requestsFor requests init).flatMap (·.binding.texts) ↔
      ∃ r ∈ requests, r.init = init ∧ property ∈ r.binding.texts := by
    simp [requestsFor, and_assoc]
  rw [lackingProperties, List.mem_filter, List.mem_eraseDups, hasked]
  simp [Script.propertiesFor]

theorem modeFor_eq_viaLet_iff {requests : List DeclarationRequest} {init : String} :
    modeFor requests init = .viaLet ↔ ∃ r ∈ requests, r.init = init ∧ r.mode = .viaLet := by
  have hany : (requestsFor requests init).any (·.mode == .viaLet) = true ↔
      ∃ r ∈ requests, r.init = init ∧ r.mode = .viaLet := by
    simp [requestsFor]
  rw [← hany, modeFor]
  split <;> simp_all

/-- Names from a module are added if they are asked for and lacking, each once and in
the order of first request: all to the first import that has names, or in one line if
there is none. -/
structure HasExactNames (a : Additions) (settings : Settings) (requests : List ImportRequest)
    (target : Script) (source : String) : Prop where
  mem_iff : ∀ pair, pair ∈ lackingPairs settings requests target source ↔
    (∃ r ∈ requests, settings.moduleFor r.source = source ∧ pair ∈ r.named) ∧
      ∀ decl ∈ target.items, decl.kind = .importDecl false →
        (ImportRequest.ofTree decl).source = source → pair ∉ (ImportRequest.ofTree decl).named
  nodup : (lackingPairs settings requests target source).Nodup
  extended : a.extensionsOf source = if (lackingPairs settings requests target source).isEmpty
    then [] else (target.extensionPoint? source).toList.map
      (⟨source, ·, lackingPairs settings requests target source⟩)
  imported : (a.namedImportsOf source).map (·.named)
    = if (lackingPairs settings requests target source).isEmpty ∨
        (target.extensionPoint? source).isSome then []
      else [lackingPairs settings requests target source]

/-- Properties of an initial value are destructured if they are asked for and
lacking, each once and in the order of first request, by one declaration, which is
a `let` if a request is. They are taken from the name of the value, if one is asked
for. -/
structure HasExactProperties (a : Additions) (requests : List DeclarationRequest)
    (target : Script) (init : String) : Prop where
  mem_iff : ∀ property, property ∈ lackingProperties requests target init ↔
    (∃ r ∈ requests, r.init = init ∧ property ∈ r.binding.texts) ∧
      ∀ pattern ∈ target.patternsFor init, property ∉ target.propertiesOf pattern
  nodup : (lackingProperties requests target init).Nodup
  destructured : a.destructuringsOf init
    = if (lackingProperties requests target init).isEmpty then []
      else [⟨modeFor requests init, (nameAsked? requests init).getD init,
        .properties (lackingProperties requests target init)⟩]
  mode_iff : modeFor requests init = .viaLet ↔ ∃ r ∈ requests, r.init = init ∧ r.mode = .viaLet

end Additions

/-- Whatever is hoisted, what is merged into a script is what is asked for and the
script lacks. -/
theorem hoistedFor_isExact [Script.Reader] (fragments : List (Nat × Fragment)) (target : Script)
    (settings : Settings) (edits : Edits) :
    let c := Collected.ofFragments fragments
    let a := c.additions target settings
    c.hoistedFor target settings = a.hoisted ∧
      ((c.hoistedFor target settings).extend edits).recorded
        = edits.recorded ++ a.extensions.map Extension.edit ∧
      (∀ source,
        a.HasExactNames settings (fragments.filterMap (·.2.import?)) target source) ∧
      ∀ init, a.HasExactProperties (fragments.flatMap (·.2.declarations)) target init := by
  intro c a
  rw [← Collected.imports_ofFragments, ← Collected.declarations_ofFragments]
  refine ⟨c.hoistedFor_eq_hoisted target settings, c.recorded_extend target settings edits,
    fun source => ?_, fun init => ?_⟩
  · exact {
      mem_iff := fun _ => Additions.mem_lackingPairs
      nodup := (Entries.nodup_eraseDups _).filter _
      extended := c.extensionsOf_additions target settings source
      imported := c.namedImportsOf_additions target settings source }
  · exact {
      mem_iff := fun _ => Additions.mem_lackingProperties
      nodup := (Entries.nodup_eraseDups _).filter _
      destructured := c.destructuringsOf_additions target settings init
      mode_iff := Additions.modeFor_eq_viaLet_iff }

/-! ## What does not count as there -/

/-- The declarators at the top of a script. Declarations that are exported or have a
label stand inside of a statement. -/
def topDeclarators : Tree → List Tree
  | .node (.declaration _) _ declarators => declarators
  | .node .statement _ [.node (.declaration _) _ declarators] => declarators
  | _ => []

/-- All that the top of a script destructures from an initial value. -/
def Script.destructured (s : Script) (init : String) : List String :=
  (((s.items.flatMap topDeclarators).filterMap s.initialized?).filter (·.1 = init)).flatMap
    fun p => if p.2.kind = .objectPattern then (patternProperties p.2).map s.text else []

/-- A rest element, and a property that an exported declaration destructures, are
destructured once more. -/
theorem hoistedFor_restAndExport :
    let fragments := [(0, Fragment.hoist "const \x7b a, ...rest \x7d = f()" .hoisted)]
    let source := "const \x7b ...rest \x7d = f()\nexport const \x7b a \x7d = f()\n"
    fragments.flatMap (·.2.declarations) = [⟨.viaConst, "f()", .properties ["a", "...rest"]⟩] ∧
      ∃ target, Script.read { typescript := true } source = .ok target ∧
        target.destructured "f()" = ["...rest", "a"] ∧
        ((Collected.ofFragments fragments).hoistedFor target {}).declarations
          = ["const \x7b\n  a,\n  ...rest,\n\x7d = f()"] := by
  decide +kernel

end Recompose
