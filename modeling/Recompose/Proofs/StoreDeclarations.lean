import Mathlib.Data.List.Flatten
import Recompose.Proofs.Additions
import Recompose.Proofs.OptionCalls
import Recompose.Proofs.PluginDeclarations
import Recompose.Proofs.StoreSnippets

/-!
# The declarations of mapped stores

The mappings of an options object are those that its options spread, as far as they belong
there and have keys (`Store.mappings`). Of all plugins, only the one for stores declares
variables, so what a pass has collected as declarations are those of the mappings, in
source order (`Store.declarations_of_pass`). A pass that succeeds registers every name once,
so local names differ over all mappings (`Store.nodup_locals`).
-/

namespace Recompose.Store

open Script (IsName IsOperand IsProperty propertyText)

/-! ## Mappings of an object -/

/-- A mapping of an option with what it maps, state or actions, if it belongs there and
has keys. -/
def used? (option : String) (m : Mapping) : Option (Mapping × Bool) :=
  (mapsState? option m.helper).bind fun isState =>
    if m.keys.isEmpty then none else some (m, isState)

/-- The mappings that an option spreads. -/
def optionMappings (option : String) (value : Script.Tree) : List (Mapping × Bool) :=
  match value.asObject? with
  | some object => (object.parts.filterMap mapping?).filterMap (used? option)
  | none => []

/-- The mappings of a property of the options object. -/
def propertyMappings (property : Script.Tree) : List (Mapping × Bool) :=
  match property.option? with
  | some (name, value) => optionMappings name value
  | none => []

/-- The mappings of an options object, in source order. -/
def mappings (object : Script.Tree) : List (Mapping × Bool) :=
  object.parts.flatMap propertyMappings

/-- The local names of some mappings. -/
def locals (ms : List (Mapping × Bool)) : List String := ms.flatMap fun p => p.1.keys.map (·.2)

theorem keys_ne_nil_of_mem_mappings {object : Script.Tree} {p : Mapping × Bool}
    (h : p ∈ mappings object) : p.1.keys ≠ [] := by
  obtain ⟨property, -, h⟩ := List.mem_flatMap.mp h
  unfold propertyMappings optionMappings at h
  split at h
  · split at h
    · obtain ⟨m, -, h⟩ := List.mem_filterMap.mp h
      obtain ⟨isState, -, h⟩ := Option.bind_eq_some_iff.mp h
      split at h
      · cases h
      · rename_i hkeys
        cases h
        exact fun heq => hkeys (List.isEmpty_iff.mpr heq)
    · cases h
  · cases h

/-- There are mappings in two options only. -/
theorem optionMappings_of_not_includes {o : ComponentOption} {settings : Settings}
    (h : ¬ Store.plugin.includes settings o = true) : optionMappings o.name o.value = [] := by
  obtain ⟨hcomputed, hmethods⟩ : o.name ≠ "computed" ∧ o.name ≠ "methods" := by
    simpa [Store.plugin] using h
  have hnone : ∀ m, used? o.name m = none := by
    intro m
    simp [used?, mapsState?, hcomputed, hmethods]
  unfold optionMappings
  split
  · exact List.filterMap_eq_nil_iff.mpr fun m _ => hnone m
  · rfl

theorem transform_eq (s : Settings) (o : ComponentOption) :
    Store.plugin.transform s o
      = .ok { fragments :=
                (optionMappings o.name o.value).flatMap fun p => fragments s p.1 p.2 } := by
  show transform s o = _
  unfold transform optionMappings
  cases o.value.asObject? with
  | none => rfl
  | some object =>
      dsimp only
      rw [List.filterMap_eq_flatMap_toList (used? o.name), List.flatMap_assoc]
      congr 3
      funext m
      unfold used?
      cases mapsState? o.name m.helper with
      | none => rfl
      | some isState =>
          dsimp only [Option.bind_some]
          split <;> simp

/-! ## Calls of the plugin for stores -/

section

variable (script : Script) (settings : Settings)

/-- The calls of the plugin for stores, at its place in the run, for a property of the
options object. -/
def storeCalls (place : Nat) (property : Script.Tree) : List Call :=
  match property.option? with
  | some (name, value) => OptionsPass.callsOf settings ⟨name, value, script⟩ [(Store.plugin, place)]
  | none => []

variable {script settings}

theorem declarations_of_call {o : ComponentOption} {plugins : List (Plugin × Nat)}
    (hplugins : ∀ p ∈ plugins, p.1.DeclaresNothing settings) :
    (OptionsPass.callsOf settings o plugins).flatMap (fun call =>
      (call.fragments settings).flatMap (·.2.declarations)) = [] := by
  refine List.flatMap_eq_nil_iff.mpr fun call hcall => ?_
  obtain ⟨p, hp, rfl⟩ := List.mem_map.mp hcall
  obtain ⟨hmem, hincludes⟩ := List.mem_filter.mp hp
  refine List.flatMap_eq_nil_iff.mpr fun f hf => ?_
  unfold Call.fragments at hf
  split at hf
  · rename_i output hanswer
    obtain ⟨fragment, hfragment, rfl⟩ := List.mem_map.mp hf
    exact hplugins p hmem o output hincludes hanswer fragment hfragment
  · cases hf

variable {pre post : List Plugin}

/-- Other plugins are called around the one for stores. -/
theorem calls_eq (hothers : ∀ plugin ∈ pre ++ post, plugin.DeclaresNothing settings)
    (property : Script.Tree) :
    ∃ before after, OptionsPass.calls script (pre ++ Store.plugin :: post) settings property
        = before ++ (storeCalls script settings pre.length property ++ after) ∧
      ∀ calls ∈ [before, after], calls.flatMap (fun call =>
        (call.fragments settings).flatMap (·.2.declarations)) = [] := by
  unfold OptionsPass.calls storeCalls
  cases property.option? with
  | none => exact ⟨[], [], rfl, by simp⟩
  | some option =>
      obtain ⟨name, value⟩ := option
      refine ⟨OptionsPass.callsOf settings ⟨name, value, script⟩ pre.zipIdx,
        OptionsPass.callsOf settings ⟨name, value, script⟩ (post.zipIdx (pre.length + 1)), ?_, ?_⟩
      · dsimp only
        rw [List.zipIdx_append, List.zipIdx_cons, Nat.zero_add]
        simp only [OptionsPass.callsOf, List.filter_append, List.map_append]
        rw [← List.singleton_append, List.filter_append, List.map_append]
      · intro calls hcalls
        rcases List.mem_cons.mp hcalls with rfl | hcalls
        · exact declarations_of_call fun p hp => hothers p.1
            (List.mem_append_left _ (List.fst_mem_of_mem_zipIdx hp))
        · rw [List.mem_singleton.mp hcalls]
          exact declarations_of_call fun p hp => hothers p.1
            (List.mem_append_right _ (List.fst_mem_of_mem_zipIdx hp))

/-- What the plugin for stores answers to a property are the fragments of its mappings. -/
theorem fragments_storeCalls (place : Nat) (property : Script.Tree) :
    ((storeCalls script settings place property).flatMap (·.fragments settings)).map (·.2)
      = (propertyMappings property).flatMap fun p => fragments settings p.1 p.2 := by
  unfold storeCalls propertyMappings
  cases property.option? with
  | none => rfl
  | some option =>
      obtain ⟨name, value⟩ := option
      dsimp only
      by_cases hincludes : Store.plugin.includes settings ⟨name, value, script⟩ = true
      · rw [OptionsPass.callsOf_cons_of_includes hincludes]
        simp [OptionsPass.callsOf, Call.fragments, Call.answer, transform_eq, Function.comp_def]
      · rw [OptionsPass.callsOf_cons_of_not_includes hincludes,
          optionMappings_of_not_includes hincludes]
        rfl

variable {object : Script.Tree} {pass : OptionsPass}

/-- The declarations that a pass has collected are those of its mappings. -/
theorem declarations_of_pass (hothers : ∀ plugin ∈ pre ++ post, plugin.DeclaresNothing settings)
    (hpass : transformOptions script object (pre ++ Store.plugin :: post) settings = .ok pass) :
    pass.collected.declarations = (mappings object).flatMap fun p =>
      (fragments settings p.1 p.2).flatMap Fragment.declarations := by
  obtain ⟨-, -, hcollected, -⟩ := of_transformOptions hpass
  rw [hcollected, Collected.declarations_ofFragments, optionCalls, mappings]
  simp only [List.flatMap_assoc]
  refine List.flatMap_congr fun property _ => ?_
  obtain ⟨before, after, hcalls, hnothing⟩ := @calls_eq script _ _ _ hothers property
  have hstore := congrArg (List.flatMap Fragment.declarations)
    (@fragments_storeCalls script settings pre.length property)
  rw [List.flatMap_map, List.flatMap_assoc, List.flatMap_assoc] at hstore
  rw [hcalls, List.flatMap_append, List.flatMap_append, hnothing before (by simp),
    hnothing after (by simp), List.append_nil]
  exact hstore

/-- The names that a mapping registers are its local names. -/
theorem registered_fragments (m : Mapping) (isState : Bool) :
    ((fragments settings m isState).filterMap Fragment.registration?).map (·.1)
      = m.keys.map (·.2) := by
  have hproperty : ∀ name tag exposed, (Fragment.property name tag exposed).registration?
      = some (name, ⟨tag, exposed⟩) := fun _ _ _ => rfl
  have himport : (Fragment.importing "pinia" "storeToRefs").registration? = none := rfl
  have hhoist : ∀ content, (Fragment.hoisting content).registration? = none := fun _ => rfl
  unfold fragments
  cases isState <;> cases settings.reactivityTransform <;>
    simp [hproperty, himport, hhoist, List.filterMap_append, Function.comp_def]

/-- A pass that succeeds maps no two keys to the same local name. -/
theorem nodup_locals (hothers : ∀ plugin ∈ pre ++ post, plugin.DeclaresNothing settings)
    (hpass : transformOptions script object (pre ++ Store.plugin :: post) settings = .ok pass) :
    (locals (mappings object)).Nodup := by
  obtain ⟨hnodup, -, -, -⟩ := of_transformOptions hpass
  have hcalls : (object.parts.flatMap (storeCalls script settings pre.length)).Sublist
      (optionCalls script object (pre ++ Store.plugin :: post) settings) := by
    refine List.Sublist.flatMap_right _ fun property _ => ?_
    obtain ⟨before, after, hsplit, -⟩ := @calls_eq script _ _ _ hothers property
    rw [hsplit]
    exact (List.sublist_append_left _ _).trans (List.sublist_append_right _ _)
  have hsub : (Call.records settings
      (object.parts.flatMap (storeCalls script settings pre.length))).names.Nodup :=
    hnodup.sublist (((hcalls.flatMap _).filterMap _).map _)
  have hfragments : ((object.parts.flatMap (storeCalls script settings pre.length)).flatMap
      (·.fragments settings)).map (·.2)
      = (mappings object).flatMap fun p => fragments settings p.1 p.2 := by
    rw [mappings, List.flatMap_assoc, List.flatMap_assoc, List.map_flatMap]
    refine List.flatMap_congr fun property _ => ?_
    exact fragments_storeCalls _ property
  have hnames : (Call.records settings
      (object.parts.flatMap (storeCalls script settings pre.length))).names
      = (((mappings object).flatMap fun p => fragments settings p.1 p.2).filterMap
          Fragment.registration?).map (·.1) := by
    rw [← hfragments, List.filterMap_map]
    rfl
  have hlocals : (((mappings object).flatMap fun p => fragments settings p.1 p.2).filterMap
      Fragment.registration?).map (·.1) = locals (mappings object) := by
    rw [List.filterMap_flatMap, List.map_flatMap]
    exact List.flatMap_congr fun p _ => registered_fragments p.1 p.2
  rwa [hnames, hlocals] at hsub

end

end Recompose.Store
