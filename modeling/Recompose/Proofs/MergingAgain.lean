import Mathlib.Data.List.Basic
import Recompose.Proofs.Additions
import Recompose.Proofs.Collected

/-!
# Merging into a script that was merged into

A script that has got what a merge adds is merged into once more. All imports are
recognised, and so are declared names (`additions_again`). What is not recognised is
added a second time: constants for imports under another name, and properties that
are destructured from the name of a value, have more than one line, or are a rest
element.
-/

namespace Recompose

/-! ## A script after a merge -/

/-- A property that takes what is left. -/
def isRest (property : String) : Bool := "...".toList.isPrefixOf property.toList

/-- The properties that a declaration is read as destructuring once it is written,
with every line but the first shifted. -/
def DeclarationRequest.writtenProperties (r : DeclarationRequest) : List String :=
  (r.binding.texts.filter (!isRest ·)).map (indent · 2)

/-- The pairs of names that imports bind, each with its module. -/
def importedPairs (imports : List ImportRequest) : List (String × String × String) :=
  imports.flatMap fun r => r.named.map (r.source, ·)

/-- What a field of imports binds, each with its module. -/
def importedNames (field : ImportRequest → Option String) (imports : List ImportRequest) :
    List (String × String) :=
  imports.filterMap fun r => (field r).map (r.source, ·)

namespace Script

/-- The imports of values at the top of a script. -/
def valueImports (s : Script) : List ImportRequest :=
  (s.items.filter isValueImport).map ImportRequest.ofTree

/-- The names at the top of a script that have an initial value, each with it. -/
def initializedNames (s : Script) : List (String × String) :=
  s.initialized.filterMap fun p => (nameOf? p.2).map (p.1, ·)

/-- The properties at the top of a script, each with the initial value. -/
def initializedProperties (s : Script) : List (String × String) :=
  s.initialized.flatMap fun p => (s.propertiesOf p.2).map (p.1, ·)

end Script

namespace Additions

def pairs (a : Additions) : List (String × String × String) :=
  importedPairs a.imports ++ a.extensions.flatMap fun e => e.named.map (e.source, ·)

/-- All declarations that are added. -/
def declared (a : Additions) : List DeclarationRequest := a.aliases ++ a.declarations.map (·.2)

def declaredNames (a : Additions) : List (String × String) :=
  a.declared.filterMap fun r => r.binding.name?.map (r.init, ·)

def declaredProperties (a : Additions) : List (String × String) :=
  a.declared.flatMap fun r => r.writtenProperties.map (r.init, ·)

end Additions

/-- Two lists have the same members. -/
def SameMembers {α : Type} (xs ys : List α) : Prop := ∀ x, x ∈ xs ↔ x ∈ ys

instance {α : Type} [DecidableEq α] (xs ys : List α) : Decidable (SameMembers xs ys) :=
  decidable_of_iff ((∀ x ∈ xs, x ∈ ys) ∧ ∀ x ∈ ys, x ∈ xs)
    ⟨fun h x => ⟨h.1 x, h.2 x⟩, fun h => ⟨fun x => (h x).mp, fun x => (h x).mpr⟩⟩

/-- A script imports and declares what another one does, and what was added to it. -/
structure Script.HasMerged (merged target : Script) (a : Additions) : Prop where
  pairs : SameMembers (importedPairs merged.valueImports)
    (importedPairs target.valueImports ++ a.pairs)
  defaults : importedNames (·.default) merged.valueImports
    = importedNames (·.default) (target.valueImports ++ a.imports)
  wildcards : importedNames (·.wildcard) merged.valueImports
    = importedNames (·.wildcard) (target.valueImports ++ a.imports)
  names : SameMembers merged.initializedNames (target.initializedNames ++ a.declaredNames)
  properties : SameMembers merged.initializedProperties
    (target.initializedProperties ++ a.declaredProperties)

instance (merged target : Script) (a : Additions) : Decidable (merged.HasMerged target a) :=
  decidable_of_iff (SameMembers _ _ ∧ _ = _ ∧ _ = _ ∧ SameMembers _ _ ∧ SameMembers _ _)
    ⟨fun ⟨hpairs, hdefaults, hwildcards, hnames, hproperties⟩ =>
        ⟨hpairs, hdefaults, hwildcards, hnames, hproperties⟩,
      fun h => ⟨h.pairs, h.defaults, h.wildcards, h.names, h.properties⟩⟩

/-- A destructured property is read as what was asked for: it is taken from the value
itself, no rest element, and written on one line. -/
def IsReadBack (d : String × DeclarationRequest) (property : String) : Prop :=
  d.2.init = d.1 ∧ isRest property = false ∧ indent property 2 = property

instance (d : String × DeclarationRequest) (property : String) :
    Decidable (IsReadBack d property) :=
  inferInstanceAs (Decidable (_ ∧ _ ∧ _))

/-- All that is added is recognised in a script that has it. -/
structure Additions.IsRecognised (a : Additions) : Prop where
  aliases : a.aliases = []
  properties : ∀ d ∈ a.declarations, ∀ property ∈ d.2.binding.texts, IsReadBack d property

instance (a : Additions) : Decidable a.IsRecognised :=
  decidable_of_iff (_ = _ ∧ ∀ d ∈ a.declarations, ∀ property ∈ d.2.binding.texts, _)
    ⟨fun ⟨haliases, hproperties⟩ => ⟨haliases, hproperties⟩,
      fun h => ⟨h.aliases, h.properties⟩⟩

/-- A declaration destructures what was destructured already, and not recognised. -/
structure Additions.IsRepeated (a : Additions) (d : String × DeclarationRequest) : Prop where
  isDestructuring : d.2.binding.name? = none ∧ d.2.binding.texts ≠ []
  repeats : ∃ d' ∈ a.declarations, d'.1 = d.1 ∧ ∀ property ∈ d.2.binding.texts,
    property ∈ d'.2.binding.texts ∧ ¬ IsReadBack d' property

/-! ## Of one module or value -/

section

variable {s : Script} {source init : String}

theorem Script.boundFrom_eq (s : Script) (source : String) :
    s.boundFrom source = s.valueImports.filter (·.source = source) := by
  rw [valueImports, List.filter_map]
  rfl

theorem Script.mem_pairsFrom {pair : String × String} :
    pair ∈ s.pairsFrom source ↔ (source, pair) ∈ importedPairs s.valueImports := by
  simp [pairsFrom, boundFrom_eq, importedPairs, and_assoc, and_left_comm]

/-- The names with one module are those of the imports from it. -/
theorem filter_importedNames (field : ImportRequest → Option String)
    (imports : List ImportRequest) (source : String) :
    ((importedNames field imports).filter (·.1 = source)).map (·.2)
      = (imports.filter (·.source = source)).filterMap field := by
  induction imports with
  | nil => rfl
  | cons r imports ih =>
      unfold importedNames at ih ⊢
      by_cases hsource : r.source = source <;> cases hfield : field r <;>
        simp_all

theorem Script.mem_namesFor {name : String} :
    name ∈ s.namesFor init ↔ (init, name) ∈ s.initializedNames := by
  simp [namesFor, patternsFor, initializedNames]

theorem Script.mem_propertiesFor {property : String} :
    property ∈ s.propertiesFor init ↔ (init, property) ∈ s.initializedProperties := by
  simp [propertiesFor, patternsFor, initializedProperties]

end

/-! ## What is recognised -/

namespace Additions

theorem stillWanted_again (wanted : Option String) (found : List String) :
    stillWanted wanted (found ++ (stillWanted wanted found).toList) = none := by
  cases found <;> cases wanted <;> rfl

theorem aliasFor_again (wanted : Option String) (found : List String) :
    aliasFor wanted (found ++ (stillWanted wanted found).toList) = aliasFor wanted found := by
  cases found <;> cases wanted <;> simp [aliasFor, stillWanted]

end Additions

namespace Collected

variable {c : Collected} {target merged : Script} {settings : Settings}
  (h : merged.HasMerged target (c.additions target settings))

include h

theorem lackingPairs_again (source : String) :
    Additions.lackingPairs settings c.imports merged source = [] := by
  rw [Additions.lackingPairs, List.filter_eq_nil_iff]
  intro pair hasked
  have hmerged : pair ∈ merged.pairsFrom source := by
    rw [Script.mem_pairsFrom, h.pairs, List.mem_append, ← Script.mem_pairsFrom]
    by_cases hhad : pair ∈ target.pairsFrom source
    · exact .inl hhad
    have hlacking : pair ∈ Additions.lackingPairs settings c.imports target source :=
      List.mem_filter.mpr ⟨hasked, by simpa using hhad⟩
    refine .inr (List.mem_append.mpr ?_)
    rcases exists_of_mem_lackingPairs hlacking with ⟨r, hr, rfl, hpair⟩ | ⟨e, he, rfl, hpair⟩
    · exact .inl (List.mem_flatMap.mpr ⟨r, hr, List.mem_map.mpr ⟨pair, hpair, rfl⟩⟩)
    · exact .inr (List.mem_flatMap.mpr ⟨e, he, List.mem_map.mpr ⟨pair, hpair, rfl⟩⟩)
  simpa using hmerged

omit h in
/-- What imports of one module bind: what they did, and what is new. -/
theorem filterMap_boundFrom_merged {field : ImportRequest → Option String}
    (hfield : importedNames field merged.valueImports
      = importedNames field (target.valueImports ++ (c.additions target settings).imports))
    (source : String) :
    (merged.boundFrom source).filterMap field = (target.boundFrom source).filterMap field ++
      (Additions.OfModule settings c.imports target source).imports.filterMap field := by
  rw [Script.boundFrom_eq, ← filter_importedNames, hfield, filter_importedNames,
    List.filter_append, List.filterMap_append, ← Script.boundFrom_eq, filter_imports_additions]

theorem defaultsFrom_merged (source : String) :
    merged.defaultsFrom source = target.defaultsFrom source ++
      (Additions.stillWanted (Additions.defaultAsked? settings c.imports source)
        (target.defaultsFrom source)).toList := by
  have hnew := filterMap_boundFrom_merged h.defaults source
  rwa [Additions.OfModule, Additions.filterMap_default_newImports] at hnew

theorem wildcardsFrom_merged (source : String) :
    merged.wildcardsFrom source = target.wildcardsFrom source ++
      (Additions.stillWanted (Additions.wildcardAsked? settings c.imports source)
        (target.wildcardsFrom source)).toList := by
  have hnew := filterMap_boundFrom_merged h.wildcards source
  rwa [Additions.OfModule, Additions.filterMap_wildcard_newImports] at hnew

/-- Of one module, only constants are added again. -/
theorem ofModule_again (source : String) :
    Additions.OfModule settings c.imports merged source
      = { aliases := (Additions.OfModule settings c.imports target source).aliases } := by
  simp [Additions.OfModule, lackingPairs_again h, defaultsFrom_merged h, wildcardsFrom_merged h,
    Additions.stillWanted_again, Additions.aliasFor_again, Additions.newImports]

omit h in
theorem declared_of_ofValue {init : String} {r : DeclarationRequest}
    (hr : r ∈ Additions.OfValue c.declarations target init) :
    r ∈ (c.additions target settings).declared :=
  List.mem_append_right _ (List.mem_map.mpr ⟨_, mem_declarations_additions hr, rfl⟩)

theorem name_again {init name : String}
    (hname : Additions.nameAsked? c.declarations init = some name) :
    name ∈ merged.namesFor init := by
  rw [Script.mem_namesFor, h.names, List.mem_append, ← Script.mem_namesFor]
  by_cases hhad : name ∈ target.namesFor init
  · exact .inl hhad
  · have hdeclared : _ ∈ (c.additions target settings).declared :=
      declared_of_ofValue (Additions.name_mem_ofValue hname hhad)
    exact .inr (List.mem_filterMap.mpr ⟨_, hdeclared, rfl⟩)

/-- Of one value, only properties are destructured again. -/
theorem ofValue_again (init : String) :
    Additions.OfValue c.declarations merged init
      = if (Additions.lackingProperties c.declarations merged init).isEmpty then []
        else [Additions.destructuring c.declarations merged init] := by
  have hname : (Additions.nameAsked? c.declarations init).filter
      (!(merged.namesFor init).contains ·) = none := by
    cases hasked : Additions.nameAsked? c.declarations init with
    | none => rfl
    | some name => simp [Option.filter, name_again h hasked]
  rw [Additions.OfValue, hname]
  rfl

/-- A property that is destructured again was destructured before, and not recognised. -/
theorem mem_lackingProperties_again {init property : String}
    (hagain : property ∈ Additions.lackingProperties c.declarations merged init) :
    property ∈ Additions.lackingProperties c.declarations target init ∧
      ¬ IsReadBack (init, Additions.destructuring c.declarations target init) property := by
  obtain ⟨hasked, hlacking⟩ := List.mem_filter.mp hagain
  have hmerged : property ∉ merged.propertiesFor init := by simpa using hlacking
  rw [Script.mem_propertiesFor, h.properties, List.mem_append, ← Script.mem_propertiesFor,
    not_or] at hmerged
  have hbefore : property ∈ Additions.lackingProperties c.declarations target init :=
    List.mem_filter.mpr ⟨hasked, by simpa using hmerged.1⟩
  refine ⟨hbefore, ?_⟩
  rintro ⟨hdirect, hrest, hline⟩
  have hwritten : property
      ∈ (Additions.destructuring c.declarations target init).writtenProperties :=
    List.mem_map.mpr ⟨property, List.mem_filter.mpr ⟨hbefore, by simp [hrest]⟩, hline⟩
  exact hmerged.2 (List.mem_flatMap.mpr
    ⟨_, declared_of_ofValue (Additions.destructuring_mem_ofValue hbefore),
      List.mem_map.mpr ⟨property, hwritten, Prod.ext hdirect rfl⟩⟩)

theorem isRepeated_of_mem_declarations {d : String × DeclarationRequest}
    (hd : d ∈ (c.additions merged settings).declarations) :
    (c.additions target settings).IsRepeated d := by
  obtain ⟨init, -, hd⟩ := List.mem_flatMap.mp hd
  obtain ⟨r, hr, rfl⟩ := List.mem_map.mp hd
  rw [ofValue_again h] at hr
  split at hr
  · cases hr
  rename_i hsome
  obtain rfl := List.mem_singleton.mp hr
  have hne : Additions.lackingProperties c.declarations merged init ≠ [] := by
    simpa using hsome
  obtain ⟨property, hproperty⟩ := List.exists_mem_of_ne_nil _ hne
  have hbefore := (mem_lackingProperties_again h hproperty).1
  exact {
    isDestructuring := ⟨rfl, hne⟩
    repeats := ⟨_, mem_declarations_additions (Additions.destructuring_mem_ofValue hbefore), rfl,
      fun property hproperty => mem_lackingProperties_again h hproperty⟩ }

end Collected

/-- What is recognised is not repeated. -/
theorem Additions.IsRecognised.not_isRepeated {a : Additions} (h : a.IsRecognised)
    (d : String × DeclarationRequest) : ¬ a.IsRepeated d := by
  rintro ⟨⟨-, htexts⟩, d', hd', -, hproperties⟩
  obtain ⟨property, hproperty⟩ := List.exists_mem_of_ne_nil _ htexts
  obtain ⟨hbefore, hagain⟩ := hproperties property hproperty
  exact hagain (h.properties d' hd' property hbefore)

/-! ## The second merge -/

/-- A merge into a script that was merged into adds no import. It adds the same
constants, and properties that the first merge destructured in a way that is not
recognised; where there are none of both, it adds nothing. -/
theorem additions_again (c : Collected) (target merged : Script) (settings : Settings)
    (h : merged.HasMerged target (c.additions target settings)) :
    let first := c.additions target settings
    let second := c.additions merged settings
    c.hoistedFor merged settings = second.hoisted ∧
      second.imports = [] ∧ second.extensions = [] ∧ second.aliases = first.aliases ∧
      (∀ d ∈ second.declarations, first.IsRepeated d) ∧
      (first.IsRecognised → c.hoistedFor merged settings = {}) := by
  intro first second
  have himports : second.imports = [] :=
    List.flatMap_eq_nil_iff.mpr fun source _ => by rw [Collected.ofModule_again h source]
  have hextensions : second.extensions = [] :=
    List.flatMap_eq_nil_iff.mpr fun source _ => by rw [Collected.ofModule_again h source]
  have haliases : second.aliases = first.aliases :=
    List.flatMap_congr fun source _ => by rw [Collected.ofModule_again h source]
  have hdeclarations : ∀ d ∈ second.declarations, first.IsRepeated d :=
    fun d hd => Collected.isRepeated_of_mem_declarations h hd
  refine ⟨c.hoistedFor_eq_hoisted merged settings, himports, hextensions, haliases, hdeclarations,
    fun hrecognised => ?_⟩
  have hnone : second.declarations = [] :=
    List.eq_nil_iff_forall_not_mem.mpr fun d hd =>
      hrecognised.not_isRepeated d (hdeclarations d hd)
  rw [c.hoistedFor_eq_hoisted, Additions.hoisted, himports, hextensions, hnone, haliases,
    hrecognised.aliases]
  rfl

/-- Names, imports and properties of one line are recognised. -/
theorem additions_again_recognised :
    let c := Collected.ofFragments [(0, .hoist "import \x7b b \x7d from 'x'" .hoisted),
      (0, .hoist "import Vue from 'vue'" .hoisted), (0, .hoist "const r = useRoute()" .hoisted),
      (1, .hoist "const \x7b p \x7d = f()" .hoisted)]
    let source := "import \x7b a, b \x7d from 'x'\nimport Vue from 'vue'\n\n" ++
      "const r = useRoute()\nconst \x7b\n  p,\n\x7d = f()\n"
    ∃ target, Script.read { typescript := true } "import \x7b a \x7d from 'x'\n" = .ok target ∧
      ∃ merged, Script.read { typescript := true } source = .ok merged ∧
        merged.HasMerged target (c.additions target {}) ∧
        (c.additions target {}).IsRecognised ∧ c.hoistedFor merged {} = {} := by
  intro c source
  have hread : ∃ target,
      Script.read { typescript := true } "import \x7b a \x7d from 'x'\n" = .ok target ∧
        ∃ merged, Script.read { typescript := true } source = .ok merged ∧
          merged.HasMerged target (c.additions target {}) ∧
          (c.additions target {}).IsRecognised := by
    decide +kernel
  obtain ⟨target, htarget, merged, hmerged, h, hrecognised⟩ := hread
  obtain ⟨-, -, -, -, -, hnothing⟩ := additions_again c target merged {} h
  exact ⟨target, htarget, merged, hmerged, h, hrecognised, hnothing hrecognised⟩

/-- A constant for an import under another name is declared once more. -/
theorem additions_again_alias :
    let c := Collected.ofFragments [(0, .hoist "import * as Vue from 'vue'" .hoisted)]
    let source := "import * as V from 'vue'\n\nconst Vue = V\n"
    ∃ target, Script.read { typescript := true } "import * as V from 'vue'\n" = .ok target ∧
      ∃ merged, Script.read { typescript := true } source = .ok merged ∧
        merged.HasMerged target (c.additions target {}) ∧
        (c.hoistedFor target {}).declarations = ["const Vue = V"] ∧
        (c.hoistedFor merged {}).declarations = ["const Vue = V"] := by
  decide +kernel

end Recompose
