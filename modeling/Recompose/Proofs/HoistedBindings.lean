import Recompose.Proofs.Additions
import Recompose.Proofs.Collected

/-!
# Names that merging keeps bound

After a merge, what the script has and what is added bind every name that is imported
by name, the first default and the first wildcard asked for from a module, and the
first name asked for of an initial value (`hoistedFor_bindsFirst`). A default or
wildcard that the script imports under another name is bound by a constant.

Nothing of the kind is done for the names asked for after the first: they are dropped,
and stay unbound (`hoistedFor_dropsSecondDefault`).
-/

namespace Recompose

/-! ## Bound names -/

def ImportRequest.boundNames (r : ImportRequest) : List String :=
  r.default.toList ++ r.wildcard.toList ++ r.named.map (·.2)

/-- What imports of values and variable declarations at the top of a script bind,
properties aside. -/
def Script.boundNames (s : Script) : List String :=
  ((s.items.filter isValueImport).map ImportRequest.ofTree).flatMap (·.boundNames) ++
    s.initialized.filterMap (nameOf? ·.2)

/-- What added code binds, properties aside. -/
def Additions.boundNames (a : Additions) : List String :=
  a.imports.flatMap (·.boundNames) ++ a.extensions.flatMap (·.named.map (·.2)) ++
    (a.aliases ++ a.declarations.map (·.2)).filterMap (·.binding.name?)

namespace Script

variable {s : Script} {source init x : String}

theorem mem_boundNames_of_mem_boundFrom {r : ImportRequest} (h : r ∈ s.boundFrom source)
    (hx : x ∈ r.boundNames) : x ∈ s.boundNames := by
  obtain ⟨decl, hdecl, rfl⟩ := List.mem_map.mp h
  have hitem := (List.mem_filter.mp hdecl).1
  exact List.mem_append_left _ (List.mem_flatMap.mpr ⟨_, List.mem_map.mpr ⟨decl, hitem, rfl⟩, hx⟩)

theorem mem_boundNames_of_mem_pairsFrom {pair : String × String} (h : pair ∈ s.pairsFrom source) :
    pair.2 ∈ s.boundNames := by
  obtain ⟨r, hr, hpair⟩ := List.mem_flatMap.mp h
  exact mem_boundNames_of_mem_boundFrom hr
    (List.mem_append_right _ (List.mem_map.mpr ⟨pair, hpair, rfl⟩))

theorem mem_boundNames_of_mem_namesFor (h : x ∈ s.namesFor init) : x ∈ s.boundNames := by
  obtain ⟨pattern, hpattern, hname⟩ := List.mem_filterMap.mp h
  obtain ⟨p, hp, rfl⟩ := List.mem_map.mp hpattern
  exact List.mem_append_right _ (List.mem_filterMap.mpr ⟨p, (List.mem_filter.mp hp).1, hname⟩)

end Script

namespace Additions

theorem mem_boundNames_of_mem_imports {a : Additions} {r : ImportRequest} (h : r ∈ a.imports)
    {x : String} (hx : x ∈ r.boundNames) : x ∈ a.boundNames :=
  List.mem_append_left _ (List.mem_append_left _ (List.mem_flatMap.mpr ⟨r, h, hx⟩))

theorem mem_boundNames_of_mem_extensions {a : Additions} {e : Extension} (h : e ∈ a.extensions)
    {pair : String × String} (hpair : pair ∈ e.named) : pair.2 ∈ a.boundNames :=
  List.mem_append_left _ (List.mem_append_right _
    (List.mem_flatMap.mpr ⟨e, h, List.mem_map.mpr ⟨pair, hpair, rfl⟩⟩))

theorem mem_boundNames_of_mem_aliases {a : Additions} {r : DeclarationRequest} (h : r ∈ a.aliases)
    {x : String} (hx : r.binding.name? = some x) : x ∈ a.boundNames :=
  List.mem_append_right _ (List.mem_filterMap.mpr ⟨r, List.mem_append_left _ h, hx⟩)

theorem mem_boundNames_of_mem_declarations {a : Additions} {init : String}
    {r : DeclarationRequest} (h : (init, r) ∈ a.declarations) {x : String}
    (hx : r.binding.name? = some x) : x ∈ a.boundNames :=
  List.mem_append_right _ (List.mem_filterMap.mpr
    ⟨r, List.mem_append_right _ (List.mem_map.mpr ⟨_, h, rfl⟩), hx⟩)

end Additions

/-! ## What a merge keeps bound -/

namespace Collected

/-- A name is bound by the script or by what is added to it. -/
def IsBound (c : Collected) (target : Script) (settings : Settings) (x : String) : Prop :=
  x ∈ target.boundNames ∨ x ∈ (c.additions target settings).boundNames

variable {c : Collected} {target : Script} {settings : Settings} {source init x : String}

/-- A default or wildcard that is asked for is imported, there already, or bound by a
constant. -/
theorem isBound_of_field (source : String) (field : ImportRequest → Option String)
    (hfield : ∀ r x, field r = some x → x ∈ r.boundNames)
    (himports : (Additions.OfModule settings c.imports target source).imports.filterMap field
      = (Additions.stillWanted (some x) ((target.boundFrom source).filterMap field)).toList)
    (haliases : ∀ r ∈ Additions.aliasFor (some x) ((target.boundFrom source).filterMap field),
      r ∈ (Additions.OfModule settings c.imports target source).aliases) :
    c.IsBound target settings x := by
  cases hfound : (target.boundFrom source).filterMap field with
  | nil =>
      have hwanted : x ∈ (Additions.OfModule settings c.imports target source).imports.filterMap
          field := by
        rw [himports, hfound]
        exact List.mem_singleton_self _
      obtain ⟨r, hr, hx⟩ := List.mem_filterMap.mp hwanted
      exact .inr (Additions.mem_boundNames_of_mem_imports (mem_imports_additions hr)
        (hfield r x hx))
  | cons existing found =>
      by_cases hsame : existing = x
      · have hhad : x ∈ (target.boundFrom source).filterMap field := by
          rw [hfound, hsame]
          exact List.mem_cons_self ..
        obtain ⟨r, hr, hx⟩ := List.mem_filterMap.mp hhad
        exact .inl (Script.mem_boundNames_of_mem_boundFrom hr (hfield r x hx))
      · have halias := haliases ⟨.viaConst, existing, .name x⟩ (by
          rw [hfound]
          exact if_neg hsame)
        exact .inr (Additions.mem_boundNames_of_mem_aliases (mem_aliases_additions halias) rfl)

theorem isBound_default (h : Additions.defaultAsked? settings c.imports source = some x) :
    c.IsBound target settings x := by
  refine isBound_of_field source (·.default) ?_ ?_ ?_
  · intro r x hx
    simp [ImportRequest.boundNames, hx]
  · rw [Additions.OfModule, h]
    exact Additions.filterMap_default_newImports ..
  · intro r hr
    rw [Additions.OfModule, h]
    exact List.mem_append_left _ (Option.mem_toList.mpr hr)

theorem isBound_wildcard (h : Additions.wildcardAsked? settings c.imports source = some x) :
    c.IsBound target settings x := by
  refine isBound_of_field source (·.wildcard) ?_ ?_ ?_
  · intro r x hx
    simp [ImportRequest.boundNames, hx]
  · rw [Additions.OfModule, h]
    exact Additions.filterMap_wildcard_newImports ..
  · intro r hr
    rw [Additions.OfModule, h]
    exact List.mem_append_right _ (Option.mem_toList.mpr hr)

theorem isBound_named {pair : String × String}
    (h : pair ∈ (requestsFrom settings c.imports source).flatMap (·.named)) :
    c.IsBound target settings pair.2 := by
  by_cases hhad : pair ∈ target.pairsFrom source
  · exact .inl (Script.mem_boundNames_of_mem_pairsFrom hhad)
  have hlacking : pair ∈ Additions.lackingPairs settings c.imports target source :=
    List.mem_filter.mpr ⟨List.mem_eraseDups.mpr h, by simpa using hhad⟩
  rcases exists_of_mem_lackingPairs hlacking with ⟨r, hr, -, hpair⟩ | ⟨e, he, -, hpair⟩
  · refine .inr (Additions.mem_boundNames_of_mem_imports hr ?_)
    exact List.mem_append_right _ (List.mem_map.mpr ⟨pair, hpair, rfl⟩)
  · exact .inr (Additions.mem_boundNames_of_mem_extensions he hpair)

theorem isBound_name (h : Additions.nameAsked? c.declarations init = some x) :
    c.IsBound target settings x := by
  by_cases hhad : x ∈ target.namesFor init
  · exact .inl (Script.mem_boundNames_of_mem_namesFor hhad)
  · have hdeclared := Additions.name_mem_ofValue h hhad
    exact .inr (Additions.mem_boundNames_of_mem_declarations
      (mem_declarations_additions hdeclared) rfl)

end Collected

/-- Names that are imported by name, and the first default, wildcard and declared name
of each module and initial value, are bound after a merge. -/
theorem hoistedFor_bindsFirst [Script.Reader] (fragments : List (Nat × Fragment))
    (target : Script) (settings : Settings) :
    let c := Collected.ofFragments fragments
    let imports := fragments.filterMap (·.2.import?)
    let declarations := fragments.flatMap (·.2.declarations)
    c.hoistedFor target settings = (c.additions target settings).hoisted ∧
      (∀ r ∈ imports, ∀ pair ∈ r.named, c.IsBound target settings pair.2) ∧
      (∀ source, ∀ x ∈ Additions.defaultAsked? settings imports source,
        c.IsBound target settings x) ∧
      (∀ source, ∀ x ∈ Additions.wildcardAsked? settings imports source,
        c.IsBound target settings x) ∧
      ∀ init, ∀ x ∈ Additions.nameAsked? declarations init, c.IsBound target settings x := by
  intro c imports declarations
  have himports : imports = c.imports := (Collected.imports_ofFragments fragments).symm
  have hdeclarations : declarations = c.declarations :=
    (Collected.declarations_ofFragments fragments).symm
  rw [himports, hdeclarations]
  refine ⟨c.hoistedFor_eq_hoisted target settings, ?_, ?_, ?_, ?_⟩
  · intro r hr pair hpair
    exact Collected.isBound_named (List.mem_flatMap.mpr
      ⟨r, List.mem_filter.mpr ⟨hr, decide_eq_true rfl⟩, hpair⟩)
  · exact fun source x hx => Collected.isBound_default hx
  · exact fun source x hx => Collected.isBound_wildcard hx
  · exact fun init x hx => Collected.isBound_name hx

/-- A default that the script imports under another name is bound by a constant. -/
theorem hoistedFor_bindsFirst_renamedDefault :
    let fragments := [(0, Fragment.hoist "import Vue from 'vue'" .hoisted),
      (1, Fragment.hoist "const route = useRoute()" .hoisted)]
    ∃ target, Script.read { typescript := true } "import V from 'vue'\n" = .ok target ∧
      "Vue" ∈ Additions.defaultAsked? {} (fragments.filterMap (·.2.import?)) "vue" ∧
      (Collected.ofFragments fragments).IsBound target {} "Vue" ∧
      "route" ∈ Additions.nameAsked? (fragments.flatMap (·.2.declarations)) "useRoute()" ∧
      (Collected.ofFragments fragments).IsBound target {} "route" := by
  intro fragments
  have hread : ∃ target, Script.read { typescript := true } "import V from 'vue'\n" = .ok target ∧
      "Vue" ∈ Additions.defaultAsked? {} (fragments.filterMap (·.2.import?)) "vue" ∧
      "route" ∈ Additions.nameAsked? (fragments.flatMap (·.2.declarations)) "useRoute()" := by
    decide +kernel
  obtain ⟨target, htarget, hdefault, hname⟩ := hread
  obtain ⟨-, -, hdefaults, -, hnames⟩ := hoistedFor_bindsFirst fragments target {}
  exact ⟨target, htarget, hdefault, hdefaults _ _ hdefault, hname, hnames _ _ hname⟩

instance (c : Collected) (target : Script) (settings : Settings) (x : String) :
    Decidable (c.IsBound target settings x) :=
  inferInstanceAs (Decidable (_ ∨ _))

/-- Of two defaults that are asked for from one module, the second is not bound. -/
theorem hoistedFor_dropsSecondDefault :
    let fragments := [(0, Fragment.hoist "import A from 'x'" .hoisted),
      (1, Fragment.hoist "import B from 'x'" .hoisted)]
    let c := Collected.ofFragments fragments
    fragments.filterMap (·.2.import?) = [⟨"x", [], some "A", none⟩, ⟨"x", [], some "B", none⟩] ∧
      ∃ target, Script.read { typescript := true } "" = .ok target ∧
        ¬ c.IsBound target {} "B" ∧
        (c.hoistedFor target {}).imports = ["import A from 'x'"] ∧
        (c.hoistedFor target {}).declarations = [] ∧ (c.hoistedFor target {}).extensions = [] := by
  decide +kernel

end Recompose
