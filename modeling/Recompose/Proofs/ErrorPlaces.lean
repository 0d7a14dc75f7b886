import Recompose.Proofs.ComponentPlaces
import Recompose.Proofs.EditSafety
import Recompose.Proofs.EntryPoints
import Recompose.Proofs.OptionCalls
import Recompose.Proofs.PositionBoundaries
import Recompose.Proofs.Script.Exports

/-!
# Where the errors of a file point to

An error of a file comes from the scan of the file, from the script in one of its
blocks, from a plugin, or from the second pass over generated code. A place in a
script lies in the content of its block and moves with the block, so it ends up in
the file. A place in generated code has to go back through the source map first.

Three kinds of errors escape this: a plugin that is not built in may tell any
place it likes; what the second pass says about a default export is not sent back;
and where the code that takes the place of the component has the size of what it
replaces, the source map takes it for the same text.
-/

namespace Recompose

open Script (Tree Component)

/-! ## Places in a script and in a file -/

/-- The place of a cause, if it has one, is in the text. -/
def TransformError.PointsInto (text : List Char) (e : TransformError) : Prop :=
  ∀ s, e.span? = some s → s.IsSlice text

/-- A cause in a script whose place, if it has one, is in the text of the script. -/
def TransformError.LiesIn (text : List Char) : TransformError → Prop
  | component _ | scriptSetupExists _ | reparse _ => False
  | scriptParse fault => fault.place.IsSlice text
  | invalidDefaultExport s | missingReturn _ s | returnNotObject _ s => s.IsSlice text
  | duplicateProperty _ | edit _ => True

/-- A place in the content of a block is one in the file when it moves with the
block. -/
theorem Block.StandsIn.isSlice_shift {source : String} {b : Block} (h : b.StandsIn source)
    {s : Span} (hs : s.IsSlice b.content.toList) :
    (s.shift b.contentSpan.start).IsSlice source.toList := by
  have hcontent := h.content
  rw [Span.slice?, Option.map_eq_some_iff] at hcontent
  obtain ⟨chars, hchars, htext⟩ := hcontent
  obtain ⟨-, cs, hrest, -⟩ := Span.chars?_eq_some_iff.mp hchars
  rw [← htext, String.toList_ofList] at hs
  have hstart := hs.start.of_rest hrest
  have hstop := hs.stop.of_rest hrest
  rw [Nat.add_comm] at hstart hstop
  exact .of_boundaries (Nat.add_le_add_right hs.ordered _) hstart hstop

theorem Block.StandsIn.pointsInto_offsetBy {source : String} {b : Block} (h : b.StandsIn source)
    {e : TransformError} (he : e.LiesIn b.content.toList) :
    (e.offsetBy b.contentSpan.start).PointsInto source.toList := by
  intro s hs
  cases e with
  | component _ | scriptSetupExists _ | reparse _ => exact he.elim
  | scriptParse _ | invalidDefaultExport _ | missingReturn _ _ | returnNotObject _ _ =>
      obtain rfl := Option.some.inj hs
      exact h.isSlice_shift he
  | duplicateProperty _ | edit _ => cases hs

theorem TransformError.inFile_of_liesIn {text : List Char} {e : TransformError} (h : e.LiesIn text)
    (d : Descriptor) (block : Block) : e.inFile d block = e.offsetBy block.contentSpan.start := by
  cases e <;> first | rfl | exact h.elim

/-- The errors of a scan tell blocks, or the end of the file. -/
theorem isSlice_of_mem_errors {source : String} {e : BlockError} (h : e ∈ (scan source).errors) :
    e.span.IsSlice source.toList := by
  rw [scan_eq] at h
  rcases List.mem_append.mp h with h | h
  · obtain ⟨b, hb, rfl⟩ := List.mem_map.mp h
    exact (standsIn_of_mem_blocksRead ((repeatedBlocks_sublist _).subset hb)).slice
  · obtain ⟨rest, hreaches, hends⟩ :=
      readBlocks_eq_iff.mp (Prod.eta (readBlocks (byteSize source.toList) source.toList)).symm
    obtain ⟨stop, hstop, -, -, -⟩ := hreaches.standsIn (Rest.zero source.toList)
    rw [Option.mem_toList.mp h] at hends
    rw [hends.span_eq hstop]
    exact .of_boundaries hstop.le_size ⟨_, hstop⟩ ⟨_, Rest.size source.toList⟩

/-! ## Readers -/

/-- What is relied on of a reader for the places of errors: it blames a piece of the text
that it was given, and a default export begins with a keyword, so with a character of one
byte. -/
structure Script.Reader.InText [Script.Reader] : Prop extends Script.Reader.IsSound where
  fault : ∀ {dialect source fault}, Script.Reader.read dialect source = .error fault →
    fault.place.IsSlice source.toList
  begins : ∀ {dialect source script}, Script.Reader.read dialect source = .ok script →
    ∀ item ∈ script.items, item.kind = .exportDefault →
      IsBoundary source.toList (item.span.start + 1)

theorem Script.Reader.inText_read : Script.Reader.InText where
  toIsSound := Script.Reader.isSound_read
  fault := Script.isSlice_of_read
  begins := Script.isBoundary_of_read

section

variable [Script.Reader] (hr : Script.Reader.InText)

include hr

theorem liesIn_readScript (dialect : Script.Dialect) (source : String) :
    Faults (·.LiesIn source.toList) (readScript dialect source) :=
  .mapError fun _ => hr.fault

end

/-! ## The script of a component -/

section

variable {script : Script} {component : Component}

theorem componentIn_eq_error {items : List Tree} {s : Span}
    (h : Script.componentIn items = .error s) : ∃ item ∈ items, item.span = s := by
  induction items with
  | nil => cases h
  | cons item items ih =>
      unfold Script.componentIn at h
      split at h
      · split at h
        · cases h
        · cases h
          exact ⟨_, List.mem_cons_self .., rfl⟩
      · cases h
        exact ⟨_, List.mem_cons_self .., rfl⟩
      · obtain ⟨item', hmem, hspan⟩ := ih h
        exact ⟨item', List.mem_cons_of_mem _ hmem, hspan⟩

theorem liesIn_readComponent (hs : script.Sound) :
    Faults (·.LiesIn script.source.toList) (readComponent script) := by
  refine .mapError fun s herr => ?_
  obtain ⟨item, hitem, rfl⟩ := componentIn_eq_error herr
  exact (hs.row.nested item hitem).isSlice

theorem Script.Tree.Nested.part {text : List Char} {t u : Tree} (h : t.Nested text)
    (hu : u ∈ t.parts) : u.Nested text := by
  obtain ⟨k, s, ps⟩ := t
  exact h.row.nested u hu

theorem TransformError.IsOfOption.liesIn {o : ComponentOption} {e : TransformError}
    {text : List Char} (h : e.IsOfOption o) (hvalue : o.value.span.IsSlice text) :
    e.LiesIn text := by
  cases e with
  | missingReturn _ _ | returnNotObject _ _ =>
      obtain rfl := h
      exact hvalue
  | component _ | scriptParse _ | invalidDefaultExport _ | scriptSetupExists _
  | duplicateProperty _ | edit _ | reparse _ => exact h.elim

/-- What is wrong with an option is told at its value, which is in the script. -/
theorem liesIn_transformOptions [Script.Reader]
    (hobject : component.object.Nested script.source.toList) (options : Options)
    (settings : Settings) :
    Faults (fun e => e.LiesIn script.source.toList ∨ options.Fails script e)
      (transformOptions script component.object options.allPlugins settings) := by
  intro e herr
  rcases exists_of_transformOptions_eq_error herr with ⟨name, rfl⟩ | ⟨call, hcall, hanswer⟩
  · exact .inl trivial
  obtain ⟨property, hproperty, name, value, hoption, hplugin, hincludes, hcalled⟩ :=
    mem_optionCalls hcall
  rw [Call.answer, hcalled] at hanswer
  rcases given_or_faults hplugin with ⟨p, hp, hgiven⟩ | hfaults
  · rw [← hgiven] at hanswer hincludes
    exact .inr ⟨p, hp, settings, name, value, hincludes, hanswer⟩
  · have hvalue := (Script.option?_holds hoption).nested (hobject.part hproperty)
    exact .inl ((hfaults settings _ e hanswer).liesIn hvalue.isSlice)

theorem object_nested (hs : script.Sound) (hc : script.component = .ok (some component)) :
    component.object.Nested script.source.toList ∧ component.object.kind = .object := by
  obtain ⟨item, hitem, -, -, hway, hkind⟩ := Script.componentIn_holds hc
  exact ⟨hway.nested (hs.row.nested item hitem), hkind⟩

end

/-! ## The first pass -/

section

variable {script : Script} {component : Component} {pass : OptionsPass} {settings : Settings}

/-- The method that the first pass adds to the options object. -/
def setupMethod (script : Script) (pass : OptionsPass) (settings : Settings) : String :=
  let hoisted := pass.collected.hoistedFor script settings
  let body := joinSections
    ["\n".intercalate hoisted.declarations, pass.collected.localCode,
     "return " ++ multilineObject pass.registry.exposed]
  setupSignature ++ " \x7b\n  " ++ indent body 2 ++ "\n\x7d"

/-- What the first pass writes in the place of a component without a setup script: the
default export or the options object goes, and generated code stands there. -/
def componentEdit (script : Script) (component : Component) (pass : OptionsPass)
    (settings : Settings) : Edit :=
  let preserved := pass.preserved.map dedent
  if settings.scriptSetup then
    ⟨component.exportSpan, (placePreserved none preserved {} pass.collected.localCode).2⟩
  else ⟨component.object.span, multilineObject (preserved ++ [setupMethod script pass settings])⟩

theorem isInsertion_of_confined {text : List Char} {offsets : Nat → Prop} {edits : Edits}
    (h : edits.Confined text (Planned offsets fun _ => False)) :
    ∀ e ∈ edits.recorded, e.isInsertion = true := by
  intro e he
  rcases h.spans e.span (List.mem_map_of_mem he) with ⟨n, -, hspan⟩ | hfalse
  · rw [Edit.isInsertion, hspan]
    exact beq_self_eq_true n
  · exact hfalse.elim

theorem placePreserved_none_code (preserved : List String) (edits : Edits) (code : String) :
    (placePreserved none preserved edits code).2 = (placePreserved none preserved {} code).2 := by
  unfold placePreserved
  split <;> rfl

/-- Beside the one edit of the component, code is only inserted. -/
theorem exists_edits_of_overwrite (hs : script.Sound) (collected : Collected) (hoisted : String)
    {span : Span} {text : String} {applied : Applied}
    (h : applyEdits script.source ((insertHoisted script
      ((collected.hoistedFor script settings).extend {}) hoisted).overwrite span text)
        = .ok applied) :
    ∃ edits : Edits, edits.apply script.source = .ok applied ∧
      ∀ e ∈ edits.recorded, e.isInsertion = false → e = ⟨span, text⟩ := by
  refine ⟨_, eq_ok_of_mapError h, fun e he hins => ?_⟩
  rw [Edits.overwrite, Edits.push] at he
  rcases List.mem_append.mp he with he | he
  · have hconfined := (Edits.Confined.empty _ _).hoisted (insertable_slot hs) collected settings
      hoisted
    rw [isInsertion_of_confined hconfined e he] at hins
    cases hins
  · exact List.mem_singleton.mp he

theorem exists_edits_of_renderSetupFunction (hs : script.Sound) {applied : Applied}
    (hmode : settings.scriptSetup = false)
    (h : renderSetupFunction script component pass (pass.preserved.map dedent) settings
      = .ok applied) :
    ∃ edits : Edits, edits.apply script.source = .ok applied ∧
      ∀ e ∈ edits.recorded, e.isInsertion = false →
        e = componentEdit script component pass settings := by
  rw [componentEdit, hmode]
  exact exists_edits_of_overwrite hs _ _ h

theorem exists_edits_of_renderScriptSetup (hs : script.Sound) {setupScript : Option Script}
    (hsetup : ∀ setup, setupScript = some setup → setup.Sound) {applied : Applied}
    (hmode : settings.scriptSetup = true)
    (h : renderScriptSetup script component setupScript pass (pass.preserved.map dedent) settings
      = .ok applied) :
    ∃ edits : Edits, edits.apply (setupScript.getD script).source = .ok applied ∧
      ∀ e ∈ edits.recorded, e.isInsertion = false → setupScript = none ∧
        e = componentEdit script component pass settings := by
  cases setupScript with
  | none =>
      unfold renderScriptSetup at h
      dsimp only at h
      rw [placePreserved_none, placePreserved_none_code] at h
      obtain ⟨edits, happly, hedits⟩ := exists_edits_of_overwrite hs _ _ h
      refine ⟨edits, happly, fun e he hins => ⟨rfl, ?_⟩⟩
      rw [componentEdit, if_pos hmode]
      exact hedits e he hins
  | some setup =>
      refine ⟨_, eq_ok_of_mapError h, fun e he hins => ?_⟩
      rw [isInsertion_of_confined (confined_setupEdits (hsetup setup rfl) ..) e he] at hins
      cases hins

/-- The component begins with a character of one byte: that of its export, or a brace. -/
theorem isBoundary_componentEdit (hs : script.Sound)
    (hbegins : ∀ item ∈ script.items, item.kind = .exportDefault →
      IsBoundary script.source.toList (item.span.start + 1))
    (hc : script.component = .ok (some component)) (pass : OptionsPass) (settings : Settings) :
    IsBoundary script.source.toList
      ((componentEdit script component pass settings).span.start + 1) := by
  unfold componentEdit
  dsimp only
  split
  · obtain ⟨item, hitem, hkind, hspan, -⟩ := Script.componentIn_holds hc
    exact hspan ▸ hbegins item hitem hkind
  · obtain ⟨hnested, hkind⟩ := object_nested hs hc
    exact (hnested.braced (by rw [hkind]; rfl)).isBoundary

end

/-! ## The second pass -/

/-- A span that begins or ends inside of another one. -/
def Span.EndsIn (s outer : Span) : Prop :=
  (outer.start ≤ s.start ∧ s.start < outer.stop) ∨
    (outer.start ≤ s.stop - 1 ∧ s.stop - 1 < outer.stop)

/-- How an error of recomposing can tell a place that is not in the file. -/
inductive Escapes [Script.Reader] (script : Script) (component : Component)
    (setupScript : Option Script) (options : Options) : TransformError → Prop where
  /-- A plugin that is not built in answers with a place of its own. -/
  | plugin {e : TransformError} (hfails : options.Fails script e)
      (hout : ¬ e.LiesIn script.source.toList) : Escapes script component setupScript options e
  /-- The code in the place of the component is no script, and has its size. -/
  | sameSize {pass : OptionsPass} {message : String} {s : Span} (hsetup : setupScript = none)
      (hpass : transformOptions script component.object options.allPlugins options.settings
        = .ok pass)
      (hsize : (componentEdit script component pass options.settings).KeepsSize)
      (hs : s.EndsIn (componentEdit script component pass options.settings).span) :
      Escapes script component setupScript options (.reparse ⟨message, some s⟩)
  /-- Generated code has a default export that is no component. -/
  | generated {pass : OptionsPass} {applied : Applied} {again : Script} {e : TransformError}
      (hmode : options.settings.scriptSetup = false)
      (hpass : transformOptions script component.object options.allPlugins options.settings
        = .ok pass)
      (happlied : renderSetupFunction script component pass (pass.preserved.map dedent)
        options.settings = .ok applied)
      (hagain : reread applied script.dialect = .ok again)
      (he : readComponent again = .error e) : Escapes script component setupScript options e

/-- What recomposing a component can fail with. -/
inductive RecomposeFault [Script.Reader] (script : Script) (component : Component)
    (setupScript : Option Script) (options : Options) : TransformError → Prop where
  /-- A cause in the script. -/
  | script {e : TransformError} (h : e.LiesIn script.source.toList) :
      RecomposeFault script component setupScript options e
  /-- Generated code is no script, from a place on that the source map may know. -/
  | mapped {fault : Script.Fault (Option Span)}
      (h : ∀ s, fault.place = some s → s.IsSlice (setupScript.getD script).source.toList) :
      RecomposeFault script component setupScript options (.reparse fault)
  | escapes {e : TransformError} (h : Escapes script component setupScript options e) :
      RecomposeFault script component setupScript options e

section

variable [Script.Reader] {script : Script} {component : Component} {setupScript : Option Script}
  {options : Options} {pass : OptionsPass}

/-- The parse error of generated code, sent back through the source map. -/
theorem recomposeFault_reread (hr : Script.Reader.InText) {applied : Applied} {edits : Edits}
    (happly : edits.apply (setupScript.getD script).source = .ok applied)
    (hpass : transformOptions script component.object options.allPlugins options.settings
      = .ok pass)
    (hedits : ∀ e ∈ edits.recorded, e.isInsertion = false →
      setupScript = none ∧ e = componentEdit script component pass options.settings)
    (hfirst : IsBoundary script.source.toList
      ((componentEdit script component pass options.settings).span.start + 1))
    (dialect : Script.Dialect) :
    Faults (RecomposeFault script component setupScript options) (reread applied dialect) := by
  refine .mapError fun fault hfault => ?_
  have hboundaries : ∀ e ∈ edits.recorded, e.isInsertion = false →
      IsBoundary (setupScript.getD script).source.toList (e.span.start + 1) := by
    intro e he hins
    obtain ⟨rfl, rfl⟩ := hedits e he hins
    exact hfirst
  have hblurs : ∀ q, edits.Blurs q → setupScript = none ∧
      (componentEdit script component pass options.settings).KeepsSize ∧
        (componentEdit script component pass options.settings).span.start ≤ q ∧
          q < (componentEdit script component pass options.settings).span.stop := by
    rintro q ⟨e, he, hkeeps, hq⟩
    obtain ⟨hnone, rfl⟩ := hedits e he hkeeps.1
    exact ⟨hnone, hkeeps, hq⟩
  have hmap : fault.map applied.sourceMap.inputSpan?
      = ⟨fault.message, applied.sourceMap.inputSpan? fault.place⟩ := rfl
  rw [hmap]
  cases hs : applied.sourceMap.inputSpan? fault.place with
  | none => exact .mapped nofun
  | some s =>
      rcases Edits.isSlice_inputSpan? happly hboundaries (hr.fault hfault) hs with h | h | h
      · exact .mapped fun _ heq => Option.some.inj heq ▸ h
      · obtain ⟨hnone, hkeeps, hq⟩ := hblurs _ h
        exact .escapes (.sameSize hnone hpass hkeeps (.inl hq))
      · obtain ⟨hnone, hkeeps, hq⟩ := hblurs _ h
        exact .escapes (.sameSize hnone hpass hkeeps (.inr hq))

theorem recomposeFault_applyEdits {source : String} {edits : Edits} :
    Faults (RecomposeFault script component setupScript options) (applyEdits source edits) :=
  .mapError fun _ _ => .script trivial

theorem recomposeFault_renderScriptSetup {preserved : List String} {settings : Settings} :
    Faults (RecomposeFault script component setupScript options)
      (renderScriptSetup script component setupScript pass preserved settings) :=
  recomposeFault_applyEdits

theorem recomposeFault_renderSetupFunction {preserved : List String} {settings : Settings} :
    Faults (RecomposeFault script component setupScript options)
      (renderSetupFunction script component pass preserved settings) :=
  recomposeFault_applyEdits

theorem recomposeFault_recompose (hr : Script.Reader.InText) (hs : script.Sound)
    (hbegins : ∀ item ∈ script.items, item.kind = .exportDefault →
      IsBoundary script.source.toList (item.span.start + 1))
    (hc : script.component = .ok (some component))
    (hsetup : ∀ setup, setupScript = some setup → setup.Sound)
    (hmode : options.settings.scriptSetup = false → setupScript = none) :
    Faults (RecomposeFault script component setupScript options)
      (recompose script component setupScript options) := by
  have hobject := (object_nested hs hc).1
  refine .bind ((liesIn_transformOptions hobject options _).mono ?_) fun pass hpass => ?_
  · intro e he
    by_cases hlies : e.LiesIn script.source.toList
    · exact .script hlies
    · exact .escapes (.plugin (he.resolve_left hlies) hlies)
  have hfirst := isBoundary_componentEdit hs hbegins hc pass options.settings
  split
  · exact .ok _
  split
  · rename_i hscriptSetup
    refine .bind ?_ fun _ _ => .ok _
    refine .bind recomposeFault_renderScriptSetup fun applied happlied => ?_
    obtain ⟨edits, happly, hedits⟩ :=
      exists_edits_of_renderScriptSetup hs hsetup hscriptSetup happlied
    refine .bind ?_ fun leftover _ => ?_
    · cases setupScript with
      | none => exact .ok _
      | some setup => exact .bind recomposeFault_applyEdits fun _ _ => .ok _
    refine .bind (recomposeFault_reread hr happly hpass hedits hfirst _) fun again _ => ?_
    exact .bind (.bind recomposeFault_applyEdits fun _ _ => .ok _) fun _ _ => .ok _
  · rename_i hscriptSetup
    have hscriptSetup := Bool.eq_false_iff.mpr hscriptSetup
    obtain rfl := hmode hscriptSetup
    refine .bind ?_ fun _ _ => .ok _
    refine .bind recomposeFault_renderSetupFunction fun applied happlied => ?_
    obtain ⟨edits, happly, hedits⟩ :=
      exists_edits_of_renderSetupFunction hs hscriptSetup happlied
    have happly : edits.apply ((none : Option Script).getD script).source = .ok applied := happly
    refine .bind (recomposeFault_reread hr happly hpass
      (fun e he hins => ⟨rfl, hedits e he hins⟩) hfirst _) fun again hagain => ?_
    refine .bind (.bind ?_ fun _ _ => ?_) fun _ _ => .ok _
    · exact fun e he => .escapes (.generated hscriptSetup hpass happlied hagain he)
    · exact .bind recomposeFault_applyEdits fun _ _ => .ok _

/-! ## Files -/

variable {source : String} {d : Descriptor} {block : Block}

/-- The setup script of a file is read from its block. -/
theorem setupScript_of_readSetupScript (hr : Script.Reader.InText) {settings : Settings}
    (hsource : script.source = block.content)
    (h : readSetupScript d settings = .ok setupScript) :
    (∀ setup, setupScript = some setup → setup.Sound) ∧
      (settings.scriptSetup = false → setupScript = none) ∧
        (setupScript.getD script).source = (d.scriptSetup.getD block).content := by
  unfold readSetupScript at h
  split at h
  · rename_i hnone
    cases h
    rw [hnone]
    exact ⟨nofun, fun _ => rfl, hsource⟩
  · rename_i setup hsome
    split at h
    · rename_i hmode
      obtain ⟨script', hread, h⟩ := exists_of_bind_eq_ok h
      cases h
      have hread := eq_ok_of_mapError (eq_ok_of_mapError hread)
      rw [hsome]
      refine ⟨?_, fun hfalse => absurd (hmode.symm.trans hfalse) nofun, hr.source hread⟩
      rintro _ ⟨⟩
      exact hr.sound hread
    · cases h

theorem pointsInto_readSetupScript (hr : Script.Reader.InText)
    (hblocks : ∀ b ∈ d.blocks, b.StandsIn source) (settings : Settings) :
    Faults (·.PointsInto source.toList) (readSetupScript d settings) := by
  unfold readSetupScript
  split
  · exact .ok _
  · rename_i setup hsetup
    have hstands := hblocks setup (by simp [Descriptor.blocks, hsetup])
    split
    · refine .bind (.mapError fun e he => ?_) fun _ _ => .ok _
      exact hstands.pointsInto_offsetBy (liesIn_readScript hr _ _ e he)
    · refine .error fun s hs => ?_
      obtain rfl := Option.some.inj hs
      exact hstands.slice

/-- An error of recomposing, moved to where its code stands in the file. -/
theorem pointsInto_inFile (hblock : block.StandsIn source)
    (htarget : (d.scriptSetup.getD block).StandsIn source)
    (hsource : script.source = block.content)
    (hsetup : (setupScript.getD script).source = (d.scriptSetup.getD block).content)
    {e : TransformError} (h : RecomposeFault script component setupScript options e) :
    (e.inFile d block).PointsInto source.toList ∨
      Escapes script component setupScript options e := by
  cases h with
  | script h =>
      rw [hsource] at h
      rw [TransformError.inFile_of_liesIn h]
      exact .inl (hblock.pointsInto_offsetBy h)
  | mapped h =>
      refine .inl fun s hs => ?_
      obtain ⟨s', hs', rfl⟩ := Option.map_eq_some_iff.mp hs
      have hslice := h s' hs'
      rw [hsetup] at hslice
      exact htarget.isSlice_shift hslice
  | escapes h => exact .inr h

/-- The errors of a file with this script block that escape. -/
def EscapesFile (d : Descriptor) (block : Block) (options : Options) (e : TransformError) : Prop :=
  ∃ script component setupScript e',
    readScript (Script.Dialect.ofLang? block.lang?) block.content = .ok script ∧
    readComponent script = .ok (some component) ∧
    readSetupScript d options.settings = .ok setupScript ∧
    Escapes script component setupScript
      (options.withTypeScript (block.isTypeScript || d.scriptSetup.any Block.isTypeScript)) e' ∧
    e = e'.inFile d block

theorem faults_recomposedBlock (hr : Script.Reader.InText)
    (hblocks : ∀ b ∈ d.blocks, b.StandsIn source) (hblock : d.script = some block) :
    Faults (fun e => e.PointsInto source.toList ∨ EscapesFile d block options e)
      (recomposedBlock d block options) := by
  have hstands := hblocks block (by simp [Descriptor.blocks, hblock])
  have htarget : (d.scriptSetup.getD block).StandsIn source := by
    cases hsetup : d.scriptSetup with
    | none => exact hstands
    | some setup => exact hblocks setup (by simp [Descriptor.blocks, hsetup])
  refine .bind (.mapError fun e he => ?_) fun script hscript => ?_
  · exact .inl (hstands.pointsInto_offsetBy (liesIn_readScript hr _ _ e he))
  have hread := eq_ok_of_mapError hscript
  have hread' := eq_ok_of_mapError hread
  have hsource := hr.source hread'
  refine .bind (.mapError fun e he => ?_) fun component? hcomponent => ?_
  · have hlies := liesIn_readComponent (hr.sound hread') e he
    rw [hsource] at hlies
    exact .inl (hstands.pointsInto_offsetBy hlies)
  have hcomponent := eq_ok_of_mapError hcomponent
  cases component? with
  | none => exact .ok _
  | some component =>
      refine .bind ((pointsInto_readSetupScript hr hblocks _).mono fun _ => .inl)
        fun setup hsetup => ?_
      obtain ⟨hsound, hmode, htext⟩ := setupScript_of_readSetupScript hr hsource hsetup
      have hmode : (options.withTypeScript (block.isTypeScript ||
          d.scriptSetup.any Block.isTypeScript)).settings.scriptSetup = false →
            setup = none := hmode
      refine .mapError fun e he => ?_
      have hfault := recomposeFault_recompose hr (hr.sound hread')
        (hsource ▸ hr.begins hread') (eq_ok_of_mapError hcomponent) hsound hmode e he
      refine (pointsInto_inFile hstands htarget hsource htext hfault).imp_right fun hescapes => ?_
      exact ⟨script, component, setup, e, hread, hcomponent, hsetup, hescapes, rfl⟩

/-- An error of a file that tells a place tells one in the file, unless it is one of
those that escape. -/
theorem transformFile_errorSpan (hr : Script.Reader.InText) (source : String) (options : Options)
    (e : TransformError) (s : Span) (h : transformFile source options = .error e)
    (hs : e.span? = some s) :
    s.IsSlice source.toList ∨
      ∃ block, (scan source).descriptor.script = some block ∧
        EscapesFile (scan source).descriptor block options e := by
  unfold transformFile at h
  dsimp only at h
  split at h
  · rename_i e' errors herrors
    cases h
    obtain rfl := Option.some.inj hs
    exact .inl (isSlice_of_mem_errors (herrors ▸ List.mem_cons_self ..))
  · cases h
  · rename_i block herrors hblock
    rw [transformBlock_eq_map] at h
    have hblocks : ∀ b ∈ (scan source).descriptor.blocks, b.StandsIn source := fun b hb =>
      standsIn_of_mem_blocksRead ((slotted_scan source).2 b hb)
    cases hresult : recomposedBlock (scan source).descriptor block options with
    | ok r =>
        rw [hresult] at h
        cases h
    | error e' =>
        rw [hresult] at h
        cases h
        rcases faults_recomposedBlock hr hblocks hblock e hresult with hpoints | hescapes
        · exact .inl (hpoints s hs)
        · exact .inr ⟨block, hblock, hescapes⟩

end

/-- A name that may not be declared, in the place of the component: the error is told at
the start of what was replaced. -/
theorem transformFile_errorSpan_reparse :
    let source := "<script>export default\x7bsetup()\x7breturn\x7bif:1\x7d\x7d\x7d</script>"
    let e : TransformError := .reparse ⟨"unexpected token", some ⟨8, 9⟩⟩
    Script.Reader.InText ∧ transformFile source {} = .error e ∧
      ((⟨8, 9⟩ : Span).IsSlice source.toList ∨
        ∃ block, (scan source).descriptor.script = some block ∧
          EscapesFile (scan source).descriptor block {} e) := by
  intro source e
  have h : transformFile source {} = .error e := by decide +kernel
  exact ⟨Script.Reader.inText_read, h,
    transformFile_errorSpan Script.Reader.inText_read source {} e ⟨8, 9⟩ h rfl⟩

/-- A name that closes the setup function leaves a default export that is no component,
and its place in the generated code is behind the end of the file. -/
theorem transformFile_blames_outside :
    let source :=
      "<script>export default f(\x7bexpose:['\x7d)\x7d\x7d.x);(\x7bb()\x7b(\x7bc']\x7d)</script>"
    transformFile source { settings := { scriptSetup := false } }
        = .error (.invalidDefaultExport ⟨8, 103⟩) ∧
      ¬ (⟨8, 103⟩ : Span).IsSlice source.toList := by
  intro source
  rw [← Span.chars?_isSome_iff]
  decide +kernel

end Recompose
