import Recompose.Proofs.Collected
import Recompose.Proofs.PluginFaults
import Recompose.Proofs.Replacements

/-!
# What the built-in plugins declare

In the first pass, the built-in plugins hoist imports and nothing else; only the one for
stores declares variables (`declaresNothing_ownPlugins`).
-/

namespace Recompose

/-- No answer of a plugin to an option that it includes declares variables. -/
def Plugin.DeclaresNothing (settings : Settings) (plugin : Plugin) : Prop :=
  ∀ o output, plugin.includes settings o = true → plugin.transform settings o = .ok output →
    ∀ f ∈ output.fragments, f.declarations = []

/-- What is imported declares nothing, as far as the built-in plugins import it. -/
theorem declarations_importing : ∀ name ∈ ["computed", "ref", "inject", "provide", "watch"],
    (Fragment.importing "vue" name).declarations = [] := by
  decide +kernel

theorem declarations_importing_hook : ∀ option ∈ Lifecycle.options,
    (Fragment.importing "vue" (Lifecycle.hook option)).declarations = [] := by
  decide +kernel

section

variable (settings : Settings)

theorem declares_import_unless {condition : Prop} [Decidable condition] {name : String}
    (hname : name ∈ ["computed", "ref", "inject", "provide", "watch"]) :
    ∀ f ∈ (if condition then [] else [Fragment.importing "vue" name]), f.declarations = [] := by
  split
  · exact List.forall_mem_nil _
  · exact List.forall_mem_singleton.mpr (declarations_importing name hname)

theorem declaresNothing_props : Props.plugin.DeclaresNothing settings := by
  intro o output _ h
  have hnames : ∀ tag, ∀ f ∈ o.declared.map fun prop => Fragment.property prop.1 tag false,
      f.declarations = [] := by
    intro tag f hf
    obtain ⟨prop, -, rfl⟩ := List.mem_map.mp hf
    rfl
  simp only [Props.plugin, Props.transform] at h
  split at h
  · cases h
    exact hnames _
  · cases h
    exact List.forall_mem_append.mpr ⟨hnames _, List.forall_mem_singleton.mpr rfl⟩

theorem declaresNothing_emits : Emits.plugin.DeclaresNothing settings := by
  intro o output _ h
  simp only [Emits.plugin, Emits.transform] at h
  split at h
  · cases h
    simp [Fragment.declarations]
  · cases h
    simp [Fragment.declarations]

theorem declaresNothing_inject : Inject.plugin.DeclaresNothing settings := by
  intro o output _ h
  cases h
  refine List.forall_mem_append.mpr ⟨List.forall_mem_flatMap.mpr ?_,
    declares_import_unless (by decide)⟩
  rintro ⟨key, source, default⟩ -
  simp [Fragment.declarations]

theorem declaresNothing_setup : Setup.plugin.DeclaresNothing settings := by
  intro o output _ h
  simp only [Setup.plugin, Setup.transform] at h
  split at h
  · cases h
    exact List.forall_mem_nil _
  · obtain ⟨⟨before, object⟩, -, h⟩ := exists_of_bind_eq_ok h
    cases h
    refine List.forall_mem_append.mpr ⟨List.forall_mem_append.mpr ⟨?_, ?_⟩,
      List.forall_mem_flatMap.mpr ?_⟩
    · unfold Setup.propsAlias
      split
      · split <;> simp [Fragment.declarations]
      · exact List.forall_mem_nil _
    · intro f hf
      obtain ⟨span, -, rfl⟩ := List.mem_map.mp hf
      rfl
    · rintro ⟨key, value⟩ -
      dsimp only
      split <;> simp [Fragment.declarations]

theorem declares_refs (o : ComponentOption) (object : Script.Tree) :
    ∀ f ∈ Data.refs settings o object, f.declarations = [] := by
  unfold Data.refs
  refine List.forall_mem_append.mpr ⟨List.forall_mem_flatMap.mpr ?_,
    declares_import_unless (by decide)⟩
  rintro ⟨key, value⟩ -
  simp [Fragment.declarations]

theorem declaresNothing_data : Data.plugin.DeclaresNothing settings := by
  intro o output _ h
  simp only [Data.plugin, Data.transform] at h
  split at h
  · obtain ⟨⟨before, object⟩, -, h⟩ := exists_of_bind_eq_ok h
    cases h
    refine List.forall_mem_append.mpr ⟨?_, declares_refs settings o object⟩
    cases before <;> simp [Fragment.declarations]
  · cases h
    exact declares_refs settings o _
  · cases h
    exact List.forall_mem_nil _

theorem declaresNothing_computed : Computed.plugin.DeclaresNothing settings := by
  intro o output _ h
  simp only [Computed.plugin, Computed.transform] at h
  split at h
  · cases h
    exact List.forall_mem_nil _
  · cases h
    refine List.forall_mem_append.mpr ⟨List.forall_mem_flatMap.mpr ?_,
      declares_import_unless (by decide)⟩
    rintro ⟨key, value⟩ -
    simp [Fragment.declarations]

theorem declaresNothing_methods : Methods.plugin.DeclaresNothing settings := by
  intro o output _ h
  simp only [Methods.plugin, Methods.transform] at h
  split at h
  · cases h
    exact List.forall_mem_nil _
  · cases h
    refine List.forall_mem_flatMap.mpr ?_
    rintro ⟨key, value⟩ -
    simp [Fragment.declarations]

theorem declares_bind (binding : String → String) (o : ComponentOption) :
    ∀ f ∈ (Registrations.bind binding o).fragments, f.declarations = [] := by
  unfold Registrations.bind
  split
  · exact List.forall_mem_nil _
  · intro f hf
    obtain ⟨⟨key, value⟩, -, hf⟩ := List.mem_filterMap.mp hf
    dsimp only at hf
    split at hf
    · cases hf
    · cases hf
      rfl

theorem declaresNothing_watch : Watch.plugin.DeclaresNothing settings := by
  intro o output _ h
  simp only [Watch.plugin, Watch.transform] at h
  split at h
  · cases h
    exact List.forall_mem_nil _
  · cases h
    refine List.forall_mem_append.mpr ⟨?_, declares_import_unless (by decide)⟩
    intro f hf
    obtain ⟨call, -, rfl⟩ := List.mem_map.mp hf
    rfl

theorem declares_calls (o : ComponentOption) (object : Script.Tree) :
    ∀ f ∈ Provide.calls o object, f.declarations = [] := by
  unfold Provide.calls
  refine List.forall_mem_append.mpr ⟨?_, declares_import_unless (by decide)⟩
  intro f hf
  obtain ⟨property, -, hf⟩ := List.mem_filterMap.mp hf
  obtain ⟨provided, -, rfl⟩ := Option.map_eq_some_iff.mp hf
  rfl

theorem declaresNothing_provide : Provide.plugin.DeclaresNothing settings := by
  intro o output _ h
  simp only [Provide.plugin, Provide.transform] at h
  split at h
  · obtain ⟨⟨before, object⟩, -, h⟩ := exists_of_bind_eq_ok h
    cases h
    refine List.forall_mem_append.mpr ⟨?_, declares_calls o object⟩
    intro f hf
    obtain ⟨span, -, rfl⟩ := List.mem_map.mp hf
    rfl
  · cases h
    exact declares_calls o _
  · cases h
    exact List.forall_mem_nil _

theorem declaresNothing_expose : Expose.plugin.DeclaresNothing settings := by
  intro o output _ h
  simp only [Expose.plugin, Expose.transform] at h
  split at h
  · cases h
    exact List.forall_mem_nil _
  · cases h
    exact List.forall_mem_singleton.mpr rfl

theorem declares_registration {source call : String}
    (himport : (Fragment.importing source call).declarations = []) (o : ComponentOption) :
    ∀ f ∈ (Lifecycle.registration source call o).fragments, f.declarations = [] :=
  List.forall_mem_cons.mpr ⟨rfl, List.forall_mem_singleton.mpr himport⟩

theorem declaresNothing_lifecycle : Lifecycle.plugin.DeclaresNothing settings := by
  intro o output hincludes h
  cases h
  exact declares_registration (declarations_importing_hook o.name
    (List.contains_iff_mem.mp hincludes)) o

theorem declaresNothing_router : Router.plugin.DeclaresNothing settings := by
  intro o output hincludes h
  cases h
  refine declares_registration ?_ o
  have hguard : ∀ name ∈ ["beforeRouteUpdate", "beforeRouteLeave"],
      (Fragment.importing "vue-router" (camelCase ("on-" ++ name))).declarations = [] := by
    decide +kernel
  have hname : o.name = "beforeRouteUpdate" ∨ o.name = "beforeRouteLeave" := by
    simpa [Router.plugin] using hincludes
  exact hguard o.name (by simpa using hname)

/-- The plugins in front of the one for stores. -/
def pluginsBeforeStores : List Plugin :=
  [Props.plugin, Emits.plugin, Inject.plugin, Registrations.components, Registrations.directives,
   Setup.plugin, Data.plugin, Computed.plugin]

/-- The built-in plugins behind the one for stores, but for the one of the instance. -/
def pluginsAfterStores : List Plugin :=
  [Methods.plugin, Watch.plugin, Lifecycle.plugin, Router.plugin, Provide.plugin, Expose.plugin]

theorem declaresNothing_ownPlugins :
    ∀ plugin ∈ pluginsBeforeStores ++ pluginsAfterStores ++ [Instance.plugin],
      plugin.DeclaresNothing settings := by
  simp only [pluginsBeforeStores, pluginsAfterStores, List.cons_append, List.nil_append,
    List.forall_mem_cons]
  refine ⟨declaresNothing_props settings, declaresNothing_emits settings,
    declaresNothing_inject settings, ?_, ?_, declaresNothing_setup settings,
    declaresNothing_data settings, declaresNothing_computed settings,
    declaresNothing_methods settings, declaresNothing_watch settings,
    declaresNothing_lifecycle settings, declaresNothing_router settings,
    declaresNothing_provide settings, declaresNothing_expose settings, ?_, List.forall_mem_nil _⟩
  · rintro o _ - ⟨⟩
    exact declares_bind _ o
  · rintro o _ - ⟨⟩
    exact declares_bind _ o
  · rintro o _ - ⟨⟩
    exact List.forall_mem_nil _

end

/-- Where further plugins declare nothing, no plugin around the one for stores does. -/
theorem exists_allPlugins_eq {options : Options}
    (hfurther : ∀ p ∈ options.plugins, p.2.DeclaresNothing options.settings) :
    ∃ pre post, options.allPlugins = pre ++ Store.plugin :: post ∧
      ∀ plugin ∈ pre ++ post, plugin.DeclaresNothing options.settings := by
  have hat : ∀ order, ∀ plugin ∈ options.pluginsAt order,
      plugin.DeclaresNothing options.settings := by
    intro order plugin hplugin
    obtain ⟨p, hp, rfl⟩ := List.mem_map.mp hplugin
    exact hfurther p (List.mem_filter.mp hp).1
  have hown := declaresNothing_ownPlugins options.settings
  simp only [List.forall_mem_append] at hown
  obtain ⟨⟨hbefore, hafter⟩, hinstance⟩ := hown
  refine ⟨options.pluginsAt .pre ++ pluginsBeforeStores,
    pluginsAfterStores ++ options.pluginsAt .post ++ [Instance.plugin], ?_, ?_⟩
  · have hbuiltin : builtinPlugins
        = pluginsBeforeStores ++ Store.plugin :: pluginsAfterStores := rfl
    simp [Options.allPlugins, hbuiltin]
  · simp only [List.forall_mem_append]
    exact ⟨⟨hat .pre, hbefore⟩, ⟨hafter, hat .post⟩, hinstance⟩

end Recompose
