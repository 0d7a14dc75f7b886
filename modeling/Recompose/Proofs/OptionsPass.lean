import Recompose.OptionsPass
import Recompose.Proofs.PluginFaults

/-!
# What the first pass counts

The pass counts the options that a plugin includes. Where there is none, no
plugin transforms anything, so the pass has nothing to fail on.
-/

namespace Recompose

namespace OptionsPass

variable {script : Script} {plugins : List Plugin} {settings : Settings} {pass pass' : OptionsPass}

/-- Whether a plugin includes the option that a property of the options object
gives. -/
def includes (script : Script) (plugins : List Plugin) (settings : Settings)
    (property : Script.Tree) : Bool :=
  property.option?.any fun option =>
    plugins.any fun plugin => plugin.includes settings ⟨option.1, option.2, script⟩

/-- A plugin that includes the option marks it as included. -/
theorem included_run [Script.Reader] {o : ComponentOption} {p p' : Progress} {plugin : Plugin × Nat}
    (h : p.run settings o plugin = .ok p') :
    p'.included = (p.included || plugin.1.includes settings o) := by
  unfold Progress.run at h
  split at h
  · rename_i hincludes
    obtain ⟨output, -, h⟩ := exists_of_bind_eq_ok h
    obtain ⟨pass, -, h⟩ := exists_of_bind_eq_ok h
    cases h
    rw [hincludes, Bool.or_true]
  · rename_i hincludes
    cases h
    rw [Bool.eq_false_iff.mpr hincludes, Bool.or_false]

theorem included_foldlM_run [Script.Reader] {o : ComponentOption} {ps : List (Plugin × Nat)}
    {p p' : Progress} (h : ps.foldlM (Progress.run settings o) p = .ok p') :
    p'.included = (p.included || ps.any fun plugin => plugin.1.includes settings o) := by
  induction ps generalizing p with
  | nil =>
      cases h
      rw [List.any_nil, Bool.or_false]
  | cons plugin ps ih =>
      rw [List.foldlM_cons] at h
      obtain ⟨next, hnext, hrest⟩ := exists_of_bind_eq_ok h
      rw [ih hrest, included_run hnext, List.any_cons, Bool.or_assoc]

/-- Plugins that do not include the option change nothing. -/
theorem foldlM_run_of_not_included [Script.Reader] {o : ComponentOption}
    {ps : List (Plugin × Nat)} (h : (ps.any fun plugin => plugin.1.includes settings o) = false)
    (p : Progress) : ps.foldlM (Progress.run settings o) p = .ok p := by
  induction ps with
  | nil => rfl
  | cons plugin ps ih =>
      rw [List.any_cons, Bool.or_eq_false_iff] at h
      have hrun : p.run settings o plugin = .ok p := by
        rw [Progress.run, h.1, if_neg Bool.false_ne_true]
      rw [List.foldlM_cons, hrun]
      exact ih h.2

theorem any_zipIdx {α : Type} (l : List α) (p : α → Bool) :
    (l.zipIdx.any fun x => p x.1) = l.any p := by
  have hmap : l.zipIdx.any (p ∘ Prod.fst) = l.any p := by
    rw [← List.any_map, List.zipIdx_map_fst]
  exact hmap

/-- One step counts the option if a plugin includes it. -/
theorem matched_step [Script.Reader] {property : Script.Tree}
    (h : step script plugins settings pass property = .ok pass') :
    pass'.matched
      = pass.matched + if includes script plugins settings property then 1 else 0 := by
  unfold step at h
  unfold includes
  dsimp only at h
  split at h
  · rename_i hoption
    cases h
    rw [hoption]
    rfl
  · rename_i name value hoption
    obtain ⟨progress, hfold, h⟩ := exists_of_bind_eq_ok h
    have hincluded := included_foldlM_run hfold
    rw [Bool.false_or] at hincluded
    rw [hoption, Option.any_some, ← any_zipIdx, ← hincluded]
    cases hprogress : progress.included with
    | true =>
        rw [hprogress] at h
        cases h
        rfl
    | false =>
        rw [hprogress] at h hincluded
        rw [foldlM_run_of_not_included hincluded.symm] at hfold
        cases hfold
        cases h
        rfl

/-- A step over an option that no plugin includes succeeds. -/
theorem step_of_not_included [Script.Reader] {property : Script.Tree}
    (h : includes script plugins settings property = false) (pass : OptionsPass) :
    ∃ pass', step script plugins settings pass property = .ok pass' := by
  unfold step
  unfold includes at h
  dsimp only
  split
  · exact ⟨_, rfl⟩
  · rename_i name value hoption
    rw [hoption, Option.any_some, ← any_zipIdx] at h
    rw [foldlM_run_of_not_included h]
    exact ⟨_, rfl⟩

theorem matched_foldlM_step [Script.Reader] {properties : List Script.Tree}
    (h : properties.foldlM (step script plugins settings) pass = .ok pass') :
    pass'.matched = pass.matched + properties.countP (includes script plugins settings) := by
  induction properties generalizing pass with
  | nil =>
      cases h
      rfl
  | cons property properties ih =>
      rw [List.foldlM_cons] at h
      obtain ⟨next, hnext, hrest⟩ := exists_of_bind_eq_ok h
      rw [ih hrest, matched_step hnext, List.countP_cons]
      omega

theorem foldlM_step_of_not_included [Script.Reader] {properties : List Script.Tree}
    (h : ∀ property ∈ properties, includes script plugins settings property = false)
    (pass : OptionsPass) :
    ∃ pass', properties.foldlM (step script plugins settings) pass = .ok pass' := by
  induction properties generalizing pass with
  | nil => exact ⟨pass, rfl⟩
  | cons property properties ih =>
      obtain ⟨next, hnext⟩ := step_of_not_included (h property (List.mem_cons_self ..)) pass
      obtain ⟨pass', hpass'⟩ := ih (fun p hp => h p (List.mem_cons_of_mem _ hp)) next
      refine ⟨pass', ?_⟩
      rw [List.foldlM_cons, hnext]
      exact hpass'

end OptionsPass

variable {script : Script} {object : Script.Tree} {plugins : List Plugin} {settings : Settings}

/-- The pass counts the options that a plugin includes. -/
theorem matched_transformOptions [Script.Reader] {pass : OptionsPass}
    (h : transformOptions script object plugins settings = .ok pass) :
    pass.matched = object.parts.countP (OptionsPass.includes script plugins settings) := by
  rw [OptionsPass.matched_foldlM_step h, Nat.zero_add]

/-- The pass matches no option exactly where no plugin includes one; it does not
fail there. -/
theorem transformOptions_matched_eq_zero_iff [Script.Reader] :
    (∃ pass, transformOptions script object plugins settings = .ok pass ∧ pass.matched = 0) ↔
      ∀ property ∈ object.parts, OptionsPass.includes script plugins settings property = false := by
  constructor
  · rintro ⟨pass, hpass, hzero⟩
    rw [matched_transformOptions hpass] at hzero
    intro property hproperty
    exact Bool.eq_false_iff.mpr (List.countP_eq_zero.mp hzero property hproperty)
  · intro h
    obtain ⟨pass, hpass⟩ := OptionsPass.foldlM_step_of_not_included h {}
    refine ⟨pass, hpass, ?_⟩
    rw [matched_transformOptions hpass]
    refine List.countP_eq_zero.mpr fun property hproperty => ?_
    rw [h property hproperty]
    exact nofun

end Recompose
