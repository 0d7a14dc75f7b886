import Recompose.Proofs.ErrorPlaces
import Recompose.Proofs.JoinedCode
import Recompose.Proofs.OptionCalls

/-!
# Emitted code in the generated script

The code of a fragment goes a long way before it is printed: it is collected into a
section, the sections are joined, and the joined code is written into a script. On no
step is a part of it lost. In a setup script it stands as it was emitted; in a setup
function it stands, indented, behind the signature of the function.
-/

namespace Recompose

open Script (Component Tree)

/-! ## Written text -/

theorem infix_of_isEmpty {s : String} (h : s.isEmpty = true) (cs : List Char) :
    s.toList <:+: cs := by
  rw [String.isEmpty_iff.mp h]
  exact List.nil_infix

theorem Edits.piece_mem_layout {es : List Edit} {e : Edit} (he : e ∈ es) (offset : Nat)
    (rest : List Char) : e.piece ∈ Edits.layout offset rest es := by
  induction es generalizing offset rest with
  | nil => cases he
  | cons e' es ih =>
      unfold Edits.layout
      rcases List.mem_cons.mp he with rfl | he
      · exact List.mem_cons_of_mem _ (List.mem_cons_self ..)
      · exact List.mem_cons_of_mem _ (List.mem_cons_of_mem _ (ih he _ _))

/-- What an edit writes stands in the text that edits were applied to. -/
theorem Edits.infix_apply {source : String} {edits : Edits} {applied : Applied} {e : Edit}
    (h : edits.apply source = .ok applied) (he : e ∈ edits.recorded) :
    e.text.toList <:+: applied.text.toList := by
  obtain ⟨hin, hclear⟩ := checks_pass_iff.mpr (apply_isOk_iff.mp ⟨applied, h⟩)
  rw [apply_of_fits hin hclear] at h
  cases h
  have hpiece := piece_mem_layout (edits.sorted_perm.mem_iff.mpr he) 0 source.toList
  rw [String.toList_ofList, ← Edit.text_piece]
  exact List.infix_of_mem_flatten (List.mem_map_of_mem hpiece)

theorem infix_overwrite {source : String} {edits : Edits} {span : Span} {text : String}
    {applied : Applied} (h : applyEdits source (edits.overwrite span text) = .ok applied) :
    text.toList <:+: applied.text.toList := by
  have hlast : (⟨span, text⟩ : Edit) ∈ (edits.overwrite span text).recorded :=
    List.mem_append_right _ (List.mem_singleton_self _)
  exact Edits.infix_apply (e := ⟨span, text⟩) (eq_ok_of_mapError h) hlast

theorem infix_insert {source : String} {edits : Edits} {offset : Nat} {text : String}
    {applied : Applied} (h : applyEdits source (edits.insert offset text) = .ok applied) :
    text.toList <:+: applied.text.toList := by
  unfold Edits.insert at h
  split at h
  · rename_i hempty
    exact infix_of_isEmpty hempty _
  · exact infix_overwrite h

/-! ## Joined text -/

theorem infix_intercalate {separator s : String} {l : List String} (h : s ∈ l) :
    s.toList <:+: (separator.intercalate l).toList := by
  induction l with
  | nil => cases h
  | cons first l ih =>
      cases l with
      | nil =>
          rw [List.mem_singleton.mp h, String.intercalate_singleton]
      | cons next l =>
          rw [String.intercalate_cons_cons, String.toList_append, String.toList_append]
          rcases List.mem_cons.mp h with rfl | h
          · rw [List.append_assoc]
            exact (List.prefix_append ..).isInfix
          · exact (ih h).trans (List.suffix_append ..).isInfix

theorem infix_joinSections {s : String} {sections : List String} (h : s ∈ sections) :
    s.toList <:+: (joinSections sections).toList := by
  by_cases hs : s.isEmpty = true
  · exact infix_of_isEmpty hs _
  · exact infix_intercalate (List.mem_filter.mpr ⟨h, by simp [hs]⟩)

theorem infix_join {s : String} {l : List String} (h : s ∈ l) :
    s.toList <:+: (String.join l).toList := by
  rw [String.toList_join]
  exact List.infix_of_mem_flatten (List.mem_map_of_mem h)

theorem infix_multilineObject {item : String} {items : List String} (h : item ∈ items) :
    (indent item 2).toList <:+: (multilineObject items).toList := by
  have hne : ¬ items.isEmpty = true := by
    rintro hempty
    rw [List.isEmpty_iff.mp hempty] at h
    cases h
  have hitem : (indent item 2).toList <:+: ("  " ++ indent item 2 ++ ",\n").toList := by
    rw [String.toList_append, String.toList_append]
    exact List.infix_append ..
  have hjoined := infix_join
    (List.mem_map_of_mem (f := fun item => "  " ++ indent item 2 ++ ",\n") h)
  rw [multilineObject, if_neg hne, String.toList_append, String.toList_append]
  exact (hitem.trans hjoined).trans (List.infix_append ..)

/-! ## Indented text -/

theorem head_splitLines (cs : List Char) :
    ∃ lines, splitLines cs = cs.takeWhile (· ≠ '\n') :: lines := by
  induction cs with
  | nil => exact ⟨[], rfl⟩
  | cons c cs ih =>
      obtain ⟨lines, hlines⟩ := ih
      by_cases hc : c = '\n'
      · exact ⟨splitLines cs, by simp [splitLines, hc]⟩
      · exact ⟨lines, by simp [splitLines, hc, hlines]⟩

/-- Indenting leaves the first line alone. -/
theorem takeWhile_prefix_indent (code : String) (n : Nat) :
    code.toList.takeWhile (· ≠ '\n') <+: (indent code n).toList := by
  obtain ⟨lines, hlines⟩ := head_splitLines code.toList
  rw [indent, String.toList_ofList, indentChars, hlines]
  cases lines with
  | nil => exact List.prefix_refl _
  | cons line lines => exact List.prefix_append ..

/-! ## Collected code -/

theorem Script.KeptApart.infix_of_mem {contents : List String} {text : List Char}
    {content : String} (h : Script.KeptApart contents text) (hmem : content ∈ contents) :
    content.toList <:+: text := by
  induction h with
  | nil => cases hmem
  | last only =>
      rw [List.mem_singleton.mp hmem]
  | cons _ _ _ ih =>
      rcases List.mem_cons.mp hmem with rfl | hmem
      · rw [List.append_assoc]
        exact (List.prefix_append ..).isInfix
      · exact (ih hmem).trans (List.suffix_append ..).isInfix

namespace Collected

variable [Script.Reader]

theorem mem_contents_ofFragments {fragments : List (Nat × Fragment)} {plugin : Nat}
    {content : String} {priority : Priority} (h : (plugin, .code content priority) ∈ fragments) :
    content ∈ (ofFragments fragments).contents := by
  have hlines : content ∈ (ofFragments fragments).lines priority plugin := by
    rw [lines_ofFragments]
    refine List.mem_flatMap.mpr ⟨_, h, ?_⟩
    simp [Fragment.line?]
  obtain ⟨part, hpart, hcontent⟩ := List.mem_flatMap.mp hlines
  refine List.mem_flatMap.mpr ⟨part, hpart, ?_⟩
  split at hcontent
  · exact hcontent
  · cases hcontent

/-- Code of a fragment stands in the joined code. -/
theorem infix_localCode {fragments : List (Nat × Fragment)} {plugin : Nat} {content : String}
    {priority : Priority} (h : (plugin, .code content priority) ∈ fragments) :
    content.toList <:+: (ofFragments fragments).localCode.toList :=
  (keptApart_localCode (lines_ne_nil_of_mem_ofFragments fragments)).infix_of_mem
    (mem_contents_ofFragments h)

end Collected

/-! ## The first pass -/

variable {script : Script} {component : Component} {pass : OptionsPass}
  {settings : Settings} {preserved : List String} {applied : Applied}

theorem infix_insertLocal {edits : Edits} {code source : String}
    (h : applyEdits source (insertLocal script edits code) = .ok applied) :
    code.toList <:+: applied.text.toList := by
  unfold insertLocal insertAfterImports at h
  split at h
  · rename_i hempty
    exact infix_of_isEmpty hempty _
  -- A gap stands in front of the code or behind it.
  split at h
  · refine List.IsInfix.trans ?_ (infix_insert h)
    rw [String.toList_append]
    exact (List.suffix_append ..).isInfix
  · refine List.IsInfix.trans ?_ (infix_insert h)
    rw [String.toList_append]
    exact (List.prefix_append ..).isInfix

theorem infix_placePreserved {setupScript : Option Script} {edits edits' : Edits}
    {code code' : String}
    (h : placePreserved setupScript preserved edits code = (edits', code')) :
    code.toList <:+: code'.toList := by
  unfold placePreserved at h
  split at h
  · cases h
    exact List.infix_refl _
  split at h
  · cases h
    exact List.infix_refl _
  · cases h
    exact infix_joinSections (List.mem_cons_of_mem _ (List.mem_singleton_self _))

/-- In a setup script, joined code stands as it is. -/
theorem infix_renderScriptSetup {setupScript : Option Script}
    (h : renderScriptSetup script component setupScript pass preserved settings = .ok applied) :
    pass.collected.localCode.toList <:+: applied.text.toList := by
  unfold renderScriptSetup at h
  dsimp only at h
  generalize hplaced : placePreserved setupScript preserved _ pass.collected.localCode = placed at h
  obtain ⟨edits, code⟩ := placed
  cases setupScript with
  | none => exact (infix_placePreserved hplaced).trans (infix_overwrite h)
  | some setup => exact (infix_placePreserved hplaced).trans (infix_insertLocal h)

/-- In a setup function, joined code stands in its body. -/
theorem infix_renderSetupFunction
    (h : renderSetupFunction script component pass preserved settings = .ok applied) :
    (indent (setupMethod script pass settings) 2).toList <:+: applied.text.toList := by
  have hitem : setupMethod script pass settings ∈ preserved ++ [setupMethod script pass settings] :=
    List.mem_append_right _ (List.mem_singleton_self _)
  exact (infix_multilineObject hitem).trans (infix_overwrite h)

/-- The signature of the setup function is not touched by its indentation. -/
theorem infix_setupSignature
    (h : renderSetupFunction script component pass preserved settings = .ok applied) :
    setupSignature.toList <:+: applied.text.toList := by
  have hline : setupSignature.toList.all (· ≠ '\n') = true := by decide +kernel
  have hfirst : setupSignature.toList
      <+: (setupMethod script pass settings).toList.takeWhile (· ≠ '\n') := by
    rw [setupMethod, String.append_assoc, String.append_assoc, String.toList_append,
      List.takeWhile_append_of_pos (List.all_eq_true.mp hline)]
    exact List.prefix_append ..
  exact (hfirst.trans (takeWhile_prefix_indent _ 2)).isInfix.trans (infix_renderSetupFunction h)

/-! ## All fragments of a pass -/

/-- What the plugins answer about the options of a component. -/
def emitted (script : Script) (object : Tree) (options : Options) : List Fragment :=
  ((optionCalls script object options.allPlugins options.settings).flatMap
    (·.fragments options.settings)).map (·.2)

section

variable {options : Options} {object : Tree}

theorem mem_emitted {fragment : Fragment} :
    fragment ∈ emitted script object options ↔ ∃ place, (place, fragment) ∈
      (optionCalls script object options.allPlugins options.settings).flatMap
        (·.fragments options.settings) := by
  rw [emitted, List.mem_map]
  constructor
  · rintro ⟨⟨place, fragment⟩, h, rfl⟩
    exact ⟨place, h⟩
  · rintro ⟨place, h⟩
    exact ⟨_, h, rfl⟩

/-- The fragments of a plugin that includes an option. -/
theorem mem_emitted_of_answer {property value : Tree} {name : String} {plugin : Plugin}
    {output : Output} (hproperty : property ∈ object.parts)
    (hoption : property.option? = some (name, value)) (hplugin : plugin ∈ options.allPlugins)
    (hincludes : plugin.includes options.settings ⟨name, value, script⟩ = true)
    (houtput : plugin.transform options.settings ⟨name, value, script⟩ = .ok output)
    {fragment : Fragment} (h : fragment ∈ output.fragments) :
    fragment ∈ emitted script object options := by
  obtain ⟨place, hplace, hget⟩ := List.mem_iff_getElem.mp hplugin
  have hindexed : (plugin, place) ∈ options.allPlugins.zipIdx := by
    rw [List.mem_zipIdx_iff_getElem?, ← hget]
    exact List.getElem?_eq_getElem hplace
  have hcall : (⟨plugin, place, ⟨name, value, script⟩⟩ : Call)
      ∈ OptionsPass.calls script options.allPlugins options.settings property := by
    rw [OptionsPass.calls, hoption]
    exact List.mem_map_of_mem (List.mem_filter.mpr ⟨hindexed, hincludes⟩)
  refine mem_emitted.mpr ⟨place, List.mem_flatMap.mpr ⟨_, List.mem_flatMap.mpr
    ⟨property, hproperty, hcall⟩, ?_⟩⟩
  rw [Call.fragments, Call.answer, houtput]
  exact List.mem_map_of_mem h

end

/-- Where code of a pass stands. -/
structure OptionsPass.Prints (pass : OptionsPass) (script : Script) (component : Component)
    (settings : Settings) (content : String) : Prop where
  inCode : content.toList <:+: pass.collected.localCode.toList
  /-- A setup script holds it as it is. -/
  inScript : ∀ setupScript preserved applied,
    renderScriptSetup script component setupScript pass preserved settings = .ok applied →
      content.toList <:+: applied.text.toList
  /-- A setup function holds it in its body. -/
  inFunction : ∀ preserved applied,
    renderSetupFunction script component pass preserved settings = .ok applied →
      ∃ body, content.toList <:+: body.toList ∧
        (indent (setupSignature ++ " \x7b\n  " ++ indent body 2 ++ "\n\x7d") 2).toList
          <:+: applied.text.toList

/-- All code that is emitted is printed. -/
theorem prints_of_mem_emitted [Script.Reader] {options : Options} {content : String}
    {priority : Priority}
    (hpass : transformOptions script component.object options.allPlugins options.settings
      = .ok pass)
    (h : .code content priority ∈ emitted script component.object options) :
    pass.Prints script component options.settings content := by
  obtain ⟨place, hplace⟩ := mem_emitted.mp h
  have hcollected : pass.collected = .ofFragments
      ((optionCalls script component.object options.allPlugins options.settings).flatMap
        (·.fragments options.settings)) := by
    rw [transformOptions_eq] at hpass
    obtain ⟨registry, -, hpass⟩ := exists_of_bind_eq_ok hpass
    split at hpass <;> cases hpass
    rfl
  have hcode : content.toList <:+: pass.collected.localCode.toList := by
    rw [hcollected]
    exact Collected.infix_localCode hplace
  refine ⟨hcode, fun _ _ _ hrender => hcode.trans (infix_renderScriptSetup hrender), ?_⟩
  intro preserved applied hrender
  refine ⟨_, ?_, infix_renderSetupFunction hrender⟩
  refine hcode.trans (infix_joinSections ?_)
  exact List.mem_cons_of_mem _ (List.mem_cons_self ..)

end Recompose
