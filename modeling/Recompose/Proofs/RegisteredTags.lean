import Recompose.Proofs.Entries
import Recompose.Proofs.OptionsPass
import Recompose.Proofs.Replacements

/-!
# Registered names are answered

The registry of the first pass holds the names that plugins registered, under
the tags that the plugins gave. The built-in plugins use tags that some plugin
answers in the second pass: there is a rule for each.
-/

namespace Recompose

/-! ## From plugins to the registry -/

/-- What a fragment registers, if anything, satisfies `P`. -/
def Fragment.Registers (P : String → Provenance → Prop) : Fragment → Prop
  | property name tag _ => P name tag
  | code _ _ | hoist _ _ | replacement _ => True

/-- A registry of names that satisfy `P`. -/
def Registry.All (P : String → Provenance → Prop) (registry : Registry) : Prop :=
  ∀ entry ∈ registry.entries, P entry.1 entry.2.source

section

variable {P : String → Provenance → Prop}

theorem Registry.All.source? {registry : Registry} (h : registry.All P) {name : String}
    {tag : Provenance} (htag : registry.source? name = some tag) : P name tag := by
  obtain ⟨entry, hentry, rfl⟩ := Option.map_eq_some_iff.mp htag
  exact h (name, entry) (Entries.mem_of_get? hentry)

theorem Registry.All.register {registry registry' : Registry} (h : registry.All P) {name : String}
    {tag : Provenance} {exposed : Bool} (hP : P name tag)
    (hregister : registry.register name tag exposed = .ok registry') : registry'.All P := by
  unfold Registry.register at hregister
  split at hregister
  · cases hregister
  · cases hregister
    intro entry hentry
    rcases List.mem_append.mp hentry with hentry | hentry
    · exact h entry hentry
    · rw [List.mem_singleton.mp hentry]
      exact hP

variable [Script.Reader] {settings : Settings}

theorem all_take {pass pass' : OptionsPass} (h : pass.registry.All P) {plugin : Nat}
    {fragment : Fragment} (hfragment : fragment.Registers P)
    (htake : pass.take plugin fragment = .ok pass') : pass'.registry.All P := by
  cases fragment with
  | code content priority =>
      cases htake
      exact h
  | hoist content priority =>
      cases htake
      exact h
  | property name tag exposed =>
      obtain ⟨registry, hregistry, hpass⟩ := exists_of_bind_eq_ok htake
      cases hpass
      exact h.register hfragment hregistry
  | replacement content =>
      cases htake
      exact h

/-- A plugin registers only names that satisfy `P`. -/
def Plugin.Registers (P : String → Provenance → Prop) (settings : Settings) (plugin : Plugin) :
    Prop :=
  ∀ o output, plugin.transform settings o = .ok output → ∀ f ∈ output.fragments, f.Registers P

theorem all_run {o : ComponentOption} {p p' : OptionsPass.Progress} {plugin : Plugin × Nat}
    (h : p.pass.registry.All P) (hplugin : plugin.1.Registers P settings)
    (hrun : p.run settings o plugin = .ok p') : p'.pass.registry.All P := by
  unfold OptionsPass.Progress.run at hrun
  split at hrun
  · obtain ⟨output, houtput, hrun⟩ := exists_of_bind_eq_ok hrun
    obtain ⟨pass, hpass, hrun⟩ := exists_of_bind_eq_ok hrun
    cases hrun
    have hfragments := hplugin o output houtput
    exact foldlM_keeps (I := fun pass => pass.registry.All P) h
      (fun _ _ f hf hall htake => all_take hall (hfragments f hf) htake) hpass
  · cases hrun
    exact h

theorem all_step {script : Script} {plugins : List Plugin} {pass pass' : OptionsPass}
    {property : Script.Tree} (h : pass.registry.All P)
    (hplugins : ∀ plugin ∈ plugins, plugin.Registers P settings)
    (hstep : OptionsPass.step script plugins settings pass property = .ok pass') :
    pass'.registry.All P := by
  unfold OptionsPass.step at hstep
  dsimp only at hstep
  split at hstep
  · cases hstep
    exact h
  · obtain ⟨progress, hfold, hstep⟩ := exists_of_bind_eq_ok hstep
    have hprogress := foldlM_keeps (I := fun p => p.pass.registry.All P) h
      (fun _ _ p hp hall hrun => all_run hall (hplugins p.1 (List.fst_mem_of_mem_zipIdx hp)) hrun)
      hfold
    split at hstep
    · cases hstep
      exact hprogress
    · cases hstep
      exact hprogress

/-- What holds of all names that plugins register holds of the registry. -/
theorem all_transformOptions {script : Script} {object : Script.Tree} {plugins : List Plugin}
    {pass : OptionsPass} (hplugins : ∀ plugin ∈ plugins, plugin.Registers P settings)
    (hpass : transformOptions script object plugins settings = .ok pass) :
    pass.registry.All P := by
  refine foldlM_keeps (I := fun pass => pass.registry.All P) (List.forall_mem_nil _) ?_ hpass
  exact fun _ _ _ _ hall hstep => all_step hall hplugins hstep

end

/-! ## Tags of the built-in plugins -/

/-- A name under a tag for which there is a rule, or the name of the events under
its own. -/
def IsAnswered (name : String) (tag : Provenance) : Prop :=
  tag ∈ (propsRules ++ otherRules).map (·.1) ∨ name = "$emit" ∧ tag = Emits.tag

section

variable {P : String → Provenance → Prop} (settings : Settings)

theorem registers_importing (source specifier : String) :
    (Fragment.importing source specifier).Registers P := trivial

theorem registers_hoisting (content : String) : (Fragment.hoisting content).Registers P := trivial

theorem registers_props : Props.plugin.Registers IsAnswered settings := by
  intro o output h
  have hnames : ∀ f ∈ o.declared.map fun prop => Fragment.property prop.1
      (if settings.destructuresProps then Props.destructuredTag else Props.tag) false,
        f.Registers IsAnswered := by
    intro f hf
    obtain ⟨prop, -, rfl⟩ := List.mem_map.mp hf
    refine .inl ?_
    split <;> decide
  simp only [Props.plugin, Props.transform] at h
  split at h
  · cases h
    exact hnames
  · cases h
    exact List.forall_mem_append.mpr ⟨hnames, List.forall_mem_singleton.mpr trivial⟩

theorem registers_emits : Emits.plugin.Registers IsAnswered settings := by
  intro o output h
  have hemit : IsAnswered "$emit" Emits.tag := .inr ⟨rfl, rfl⟩
  simp only [Emits.plugin, Emits.transform] at h
  split at h
  · cases h
    simpa [Fragment.Registers] using hemit
  · cases h
    simpa [Fragment.Registers] using hemit

theorem registers_inject : Inject.plugin.Registers IsAnswered settings := by
  intro o output h
  cases h
  refine List.forall_mem_append.mpr ⟨List.forall_mem_flatMap.mpr ?_, ?_⟩
  · rintro ⟨key, source, default⟩ -
    have hkey : IsAnswered key Inject.tag := .inl (by decide)
    simpa [Fragment.Registers] using hkey
  · split <;> simp [registers_importing]

theorem registers_setup : Setup.plugin.Registers IsAnswered settings := by
  intro o output h
  simp only [Setup.plugin, Setup.transform] at h
  split at h
  · cases h
    exact List.forall_mem_nil _
  · obtain ⟨⟨before, object⟩, -, h⟩ := exists_of_bind_eq_ok h
    cases h
    refine List.forall_mem_append.mpr ⟨List.forall_mem_append.mpr ⟨?_, ?_⟩,
      List.forall_mem_flatMap.mpr ?_⟩
    · unfold Setup.propsAlias
      split
      · split <;> simp [Fragment.Registers]
      · exact List.forall_mem_nil _
    · intro f hf
      obtain ⟨span, -, rfl⟩ := List.mem_map.mp hf
      exact trivial
    · rintro ⟨key, value⟩ -
      have hkey : IsAnswered key Setup.tag := .inl (by decide)
      dsimp only
      split <;> simpa [Fragment.Registers] using hkey

theorem registers_refs (o : ComponentOption) (object : Script.Tree) :
    ∀ f ∈ Data.refs settings o object, f.Registers IsAnswered := by
  unfold Data.refs
  refine List.forall_mem_append.mpr ⟨List.forall_mem_flatMap.mpr ?_, ?_⟩
  · rintro ⟨key, value⟩ -
    have hkey : IsAnswered key
        (if settings.reactivityTransform then Data.reactivityTag else Data.tag) := by
      refine .inl ?_
      split <;> decide
    simpa [Fragment.Registers] using hkey
  · split <;> simp [registers_importing]

theorem registers_data : Data.plugin.Registers IsAnswered settings := by
  intro o output h
  simp only [Data.plugin, Data.transform] at h
  split at h
  · obtain ⟨⟨before, object⟩, -, h⟩ := exists_of_bind_eq_ok h
    cases h
    refine List.forall_mem_append.mpr ⟨?_, registers_refs settings o object⟩
    cases before <;> simp [Fragment.Registers]
  · cases h
    exact registers_refs settings o _
  · cases h
    exact List.forall_mem_nil _

theorem registers_computed : Computed.plugin.Registers IsAnswered settings := by
  intro o output h
  simp only [Computed.plugin, Computed.transform] at h
  split at h
  · cases h
    exact List.forall_mem_nil _
  · cases h
    refine List.forall_mem_append.mpr ⟨List.forall_mem_flatMap.mpr ?_, ?_⟩
    · rintro ⟨key, value⟩ -
      have hkey : IsAnswered key
          (if settings.reactivityTransform then Computed.reactivityTag else Computed.tag) := by
        refine .inl ?_
        split <;> decide
      cases hreactivity : settings.reactivityTransform <;>
        simpa [Fragment.Registers, hreactivity] using hkey
    · split <;> simp [registers_importing]

theorem registers_mapping (m : Store.Mapping) (isState : Bool) :
    ∀ f ∈ Store.fragments settings m isState, f.Registers IsAnswered := by
  unfold Store.fragments
  refine List.forall_mem_append.mpr ⟨List.forall_mem_cons.mpr ⟨registers_hoisting _, ?_⟩, ?_⟩
  · intro f hf
    obtain ⟨⟨key, name⟩, -, rfl⟩ := List.mem_map.mp hf
    refine .inl ?_
    cases isState <;> cases settings.reactivityTransform <;> decide
  · cases isState <;> cases settings.reactivityTransform <;>
      simp [registers_importing, registers_hoisting]

theorem registers_store : Store.plugin.Registers IsAnswered settings := by
  intro o output h
  simp only [Store.plugin, Store.transform] at h
  split at h
  · cases h
    exact List.forall_mem_nil _
  · cases h
    refine List.forall_mem_flatMap.mpr fun m _ => ?_
    split
    · split
      · exact List.forall_mem_nil _
      · exact registers_mapping settings m _
    · exact List.forall_mem_nil _

theorem registers_methods : Methods.plugin.Registers IsAnswered settings := by
  intro o output h
  simp only [Methods.plugin, Methods.transform] at h
  split at h
  · cases h
    exact List.forall_mem_nil _
  · cases h
    refine List.forall_mem_flatMap.mpr ?_
    rintro ⟨key, value⟩ -
    have hkey : IsAnswered key Methods.tag := .inl (by decide)
    simpa [Fragment.Registers] using hkey

theorem registers_registration (source call : String) (o : ComponentOption) :
    ∀ f ∈ (Lifecycle.registration source call o).fragments, f.Registers P := by
  exact List.forall_mem_cons.mpr ⟨trivial, List.forall_mem_singleton.mpr trivial⟩

theorem registers_bind (binding : String → String) (o : ComponentOption) :
    ∀ f ∈ (Registrations.bind binding o).fragments, f.Registers P := by
  unfold Registrations.bind
  split
  · exact List.forall_mem_nil _
  · intro f hf
    obtain ⟨⟨key, value⟩, -, hf⟩ := List.mem_filterMap.mp hf
    dsimp only at hf
    split at hf
    · cases hf
    · cases hf
      exact trivial

theorem registers_watch : Watch.plugin.Registers P settings := by
  intro o output h
  simp only [Watch.plugin, Watch.transform] at h
  split at h
  · cases h
    exact List.forall_mem_nil _
  · cases h
    refine List.forall_mem_append.mpr ⟨?_, ?_⟩
    · intro f hf
      obtain ⟨call, -, rfl⟩ := List.mem_map.mp hf
      exact trivial
    · split <;> simp [registers_importing]

theorem registers_calls (o : ComponentOption) (object : Script.Tree) :
    ∀ f ∈ Provide.calls o object, f.Registers P := by
  unfold Provide.calls
  refine List.forall_mem_append.mpr ⟨?_, ?_⟩
  · intro f hf
    obtain ⟨property, -, hf⟩ := List.mem_filterMap.mp hf
    obtain ⟨provided, -, rfl⟩ := Option.map_eq_some_iff.mp hf
    exact trivial
  · split <;> simp [registers_importing]

theorem registers_provide : Provide.plugin.Registers P settings := by
  intro o output h
  simp only [Provide.plugin, Provide.transform] at h
  split at h
  · obtain ⟨⟨before, object⟩, -, h⟩ := exists_of_bind_eq_ok h
    cases h
    refine List.forall_mem_append.mpr ⟨?_, registers_calls o object⟩
    intro f hf
    obtain ⟨span, -, rfl⟩ := List.mem_map.mp hf
    exact trivial
  · cases h
    exact registers_calls o _
  · cases h
    exact List.forall_mem_nil _

theorem registers_expose : Expose.plugin.Registers P settings := by
  intro o output h
  simp only [Expose.plugin, Expose.transform] at h
  split at h
  · cases h
    exact List.forall_mem_nil _
  · cases h
    exact List.forall_mem_singleton.mpr trivial

/-- Every tag that a built-in plugin registers a name under is answered. -/
theorem registers_ownPlugins : ∀ plugin ∈ ownPlugins, plugin.Registers IsAnswered settings := by
  simp only [ownPlugins, builtinPlugins, List.cons_append, List.nil_append, List.forall_mem_cons]
  refine ⟨registers_props settings, registers_emits settings, registers_inject settings, ?_, ?_,
    registers_setup settings, registers_data settings, registers_computed settings,
    registers_store settings, registers_methods settings, registers_watch settings, ?_, ?_,
    registers_provide settings, registers_expose settings, ?_, List.forall_mem_nil _⟩
  · rintro o _ ⟨⟩
    exact registers_bind _ o
  · rintro o _ ⟨⟩
    exact registers_bind _ o
  · rintro o _ ⟨⟩
    exact registers_registration _ _ o
  · rintro o _ ⟨⟩
    exact registers_registration _ _ o
  · rintro o _ ⟨⟩
    exact List.forall_mem_nil _

end

theorem exists_byTag? {rules : List TagRule} {tag : Provenance} (h : tag ∈ rules.map (·.1))
    (use : AccessUse) (name : String) :
    ∃ replacement, byTag? rules use name tag = some replacement := by
  cases hlookup : rules.lookup tag with
  | some rule => exact ⟨rule use name, by rw [byTag?, hlookup]; rfl⟩
  | none =>
      obtain ⟨rule, hrule, rfl⟩ := List.mem_map.mp h
      have hne := List.lookup_eq_none_iff.mp hlookup rule hrule
      simp at hne

/-- A name that is registered under an answered tag is replaced. -/
theorem IsAnswered.exists_replacementFor? {name : String} {tag : Provenance}
    (h : IsAnswered name tag) (use : AccessUse) :
    ∃ replacement, replacementFor? use (some tag) (some name) = some replacement := by
  unfold replacementFor?
  dsimp only
  cases hprops : byTag? propsRules use name tag with
  | some replacement => exact ⟨replacement, rfl⟩
  | none =>
      rw [Option.none_or]
      by_cases hname : name = "$emit"
      · exact ⟨.emit, if_pos hname⟩
      · rw [if_neg hname]
        rcases h with htag | ⟨hemit, -⟩
        · rw [List.map_append] at htag
          rcases List.mem_append.mp htag with htag | htag
          · obtain ⟨replacement, hreplacement⟩ := exists_byTag? htag use name
            rw [hprops] at hreplacement
            cases hreplacement
          · exact exists_byTag? htag use name
        · exact absurd hemit hname

end Recompose
