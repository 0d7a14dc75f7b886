import Recompose.Composition
import Recompose.Proofs.EditRoom
import Recompose.Proofs.PluginFaults

/-!
# Edits of a transformation always apply

Both passes record edits at offsets and spans that come from different parts of
a tree. This file shows for each pass that the spans are apart: insertions go to
slots of the script, behind the brace of an object or block, or to any place of a
script in which nothing is replaced; what is replaced is the default export, its
options object, or accesses that stand apart.
-/

namespace Recompose

open Script (Tree Component)

/-! ## Plans -/

/-- Insertions at some offsets, and replacements of some spans. -/
def Planned (offsets : Nat → Prop) (replaced : Span → Prop) (s : Span) : Prop :=
  (∃ n, offsets n ∧ s = Span.point n) ∨ replaced s

namespace Edits

variable {text : List Char} {offsets : Nat → Prop} {replaced : Span → Prop}

theorem insertable_planned {n : Nat} (hn : offsets n) (hboundary : IsBoundary text n)
    (hapart : ∀ s, replaced s → s.Apart (Span.point n)) :
    Insertable text (Planned offsets replaced) n := by
  refine ⟨hboundary, .inl ⟨n, hn, rfl⟩, ?_⟩
  rintro s (⟨m, -, rfl⟩ | hs)
  · exact Span.apart_points m n
  · exact hapart s hs

/-- Where nothing is replaced, text can be inserted at any boundary. -/
theorem insertable_of_isBoundary {n : Nat} (h : IsBoundary text n) :
    Insertable text (Planned (IsBoundary text) fun _ => False) n :=
  insertable_planned h h nofun

end Edits

theorem applyEdits_eq_ok {source : String} {planned : Span → Prop} {edits : Edits}
    (h : edits.Confined source.toList planned) : ∃ applied, applyEdits source edits = .ok applied := by
  obtain ⟨applied, happlied⟩ := h.apply_eq_ok
  exact ⟨applied, by rw [applyEdits, happlied]; rfl⟩

theorem applyEdits_text_eq_ok {source : String} {planned : Span → Prop} {edits : Edits}
    (h : edits.Confined source.toList planned) :
    ∃ code, (do return (← applyEdits source edits).text : Except TransformError String) = .ok code := by
  obtain ⟨applied, happlied⟩ := applyEdits_eq_ok h
  exact ⟨applied.text, by rw [happlied]; rfl⟩

/-! ## First pass -/

section FirstPass

variable {script : Script} {component : Component}

/-- The default export of a component is an item of the script, and no slot is
inside of it. -/
theorem export_apart (hs : script.Sound) (hc : script.component = .ok (some component)) :
    component.exportSpan.IsSlice script.source.toList ∧
      ∀ n, script.Slot n → component.exportSpan.Apart (Span.point n) := by
  obtain ⟨item, hitem, hkind, hspan, -, -⟩ := Script.componentIn_holds hc
  rw [← hspan]
  refine ⟨(hs.row.nested item hitem).isSlice, fun n hn => hn.apart hs hitem ?_⟩
  simp [Script.Tree.isImport, hkind]

theorem object_apart (hs : script.Sound) (hc : script.component = .ok (some component)) :
    component.object.span.IsSlice script.source.toList ∧
      ∀ n, script.Slot n → component.object.span.Apart (Span.point n) := by
  obtain ⟨item, hitem, hkind, hspan, hway, -⟩ := Script.componentIn_holds hc
  have hnested := hs.row.nested item hitem
  obtain ⟨hlo, hhi⟩ := hway.inside hnested
  refine ⟨(hway.nested hnested).isSlice, fun n hn => ?_⟩
  have hapart := (export_apart hs hc).2 n hn
  rw [← hspan] at hapart
  exact hapart.of_inside hlo hhi (Nat.le_refl _) (Nat.le_refl _)

/-- Where nothing is replaced, code can be put into all slots. -/
theorem insertable_slot (hs : script.Sound) (n : Nat) (hn : script.Slot n) :
    Edits.Insertable script.source.toList (Planned script.Slot fun _ => False) n :=
  Edits.insertable_planned hn (hn.isBoundary hs) nofun

/-- A span that no slot is inside of can be replaced beside hoisted code. -/
theorem overwrite_eq_ok (hs : script.Sound) (collected : Collected) (settings : Settings)
    (code : String) {s : Span} (h : s.IsSlice script.source.toList ∧
      ∀ n, script.Slot n → s.Apart (Span.point n)) (text : String) :
    ∃ applied, applyEdits script.source
      ((insertHoisted script ((collected.hoistedFor script settings).extend {}) code).overwrite s
        text) = .ok applied := by
  have hhoisted := (Edits.Confined.empty _ _).hoisted (insertable_slot hs) collected settings code
  refine applyEdits_eq_ok (hhoisted.push h.1 ?_ text)
  rintro u (⟨n, hn, rfl⟩ | hfalse)
  · exact (h.2 n hn).symm
  · cases hfalse

theorem renderSetupFunction_eq_ok (hs : script.Sound)
    (hc : script.component = .ok (some component)) (pass : OptionsPass) (preserved : List String)
    (settings : Settings) :
    ∃ applied, renderSetupFunction script component pass preserved settings = .ok applied :=
  overwrite_eq_ok hs _ _ _ (object_apart hs hc) _

theorem removeDefaultExport_eq_ok (hs : script.Sound)
    (hc : script.component = .ok (some component)) :
    ∃ left, removeDefaultExport script component = .ok left := by
  have hconfined : (Edits.remove {} component.exportSpan).Confined script.source.toList
      fun s => False ∨ s = component.exportSpan := by
    unfold Edits.remove
    split
    · exact .empty _ _
    · exact Edits.Confined.push (.empty _ fun _ => False) (export_apart hs hc).1 nofun ""
  obtain ⟨applied, happlied⟩ := applyEdits_eq_ok hconfined
  exact ⟨_, by rw [removeDefaultExport, happlied]; rfl⟩

/-- Options are kept at the end of the object of a call, or behind its brace. -/
theorem confined_placePreserved {setup : Script} {edits : Edits} (hs : setup.Sound)
    (h : edits.Confined setup.source.toList
      (Planned (IsBoundary setup.source.toList) fun _ => False)) (preserved : List String)
    (code : String) :
    (placePreserved (some setup) preserved edits code).1.Confined setup.source.toList
      (Planned (IsBoundary setup.source.toList) fun _ => False) := by
  unfold placePreserved
  split
  · exact h
  split
  · rename_i object hobject
    obtain ⟨item, hitem, hdefined⟩ := List.exists_of_findSome?_eq_some hobject
    obtain ⟨hway, hkind⟩ := Script.definedOptions?_holds hdefined
    have hnested := hway.nested (hs.row.nested item hitem)
    unfold extendDefineOptions
    split
    · rename_i last hlast
      obtain ⟨k, s, ps⟩ := object
      have hpart := hnested.row.nested last (List.mem_of_getLast? hlast)
      exact h.insert (Edits.insertable_of_isBoundary hpart.isSlice.stop) _
    · have hbraced := hnested.braced (by rw [hkind]; rfl)
      exact h.insert (Edits.insertable_of_isBoundary hbraced.isBoundary) _
  · exact h

theorem placePreserved_none (preserved : List String) (edits : Edits) (code : String) :
    (placePreserved none preserved edits code).1 = edits := by
  unfold placePreserved
  split <;> rfl

/-- Into an existing setup script, code is only inserted. -/
theorem confined_setupEdits {setup : Script} (hs : setup.Sound) (collected : Collected)
    (hoisted : String) (preserved : List String) (settings : Settings) (code code' : String) :
    (insertLocal setup (placePreserved (some setup) preserved (insertHoisted setup
      ((collected.hoistedFor setup settings).extend {}) hoisted) code).1 code').Confined
        setup.source.toList (Planned (IsBoundary setup.source.toList) fun _ => False) := by
  have hslots : ∀ n, setup.Slot n → Edits.Insertable setup.source.toList
      (Planned (IsBoundary setup.source.toList) fun _ => False) n :=
    fun n hn => Edits.insertable_of_isBoundary (hn.isBoundary hs)
  have hhoisted := (Edits.Confined.empty _ _).hoisted hslots collected settings hoisted
  exact (confined_placePreserved hs hhoisted preserved code).insertAfterImports hslots _ _

theorem renderScriptSetup_eq_ok (hs : script.Sound) (hc : script.component = .ok (some component))
    {setupScript : Option Script} (hsetup : ∀ setup, setupScript = some setup → setup.Sound)
    (pass : OptionsPass) (preserved : List String) (settings : Settings) :
    ∃ applied, renderScriptSetup script component setupScript pass preserved settings
      = .ok applied := by
  cases setupScript with
  | none =>
      unfold renderScriptSetup
      dsimp only
      rw [placePreserved_none]
      exact overwrite_eq_ok hs _ _ _ (export_apart hs hc) _
  | some setup => exact applyEdits_eq_ok (confined_setupEdits (hsetup setup rfl) ..)

end FirstPass

/-! ## Second pass -/

section SecondPass

/-- Resolving an access replaces it or leaves the edits as they are. -/
theorem spans_resolve [Script.Reader] (script : Script) (registry : Registry)
    (plugins : List Plugin) (settings : Settings) (r : Resolved) (a : Access) :
    (r.resolve script registry plugins settings a).edits.spans = r.edits.spans ++ [a.replaced] ∨
      (r.resolve script registry plugins settings a).edits.spans = r.edits.spans := by
  unfold Resolved.resolve
  dsimp only
  split
  · exact .inl (Edits.spans_push ..)
  · exact .inr rfl

theorem spans_foldl_resolve [Script.Reader] (script : Script) (registry : Registry)
    (plugins : List Plugin) (settings : Settings) (as : List Access) (r : Resolved) :
    ∃ bs : List Access, bs.Sublist as ∧
      (as.foldl (Resolved.resolve script registry plugins settings) r).edits.spans
        = r.edits.spans ++ bs.map Access.replaced := by
  induction as generalizing r with
  | nil => exact ⟨[], .slnil, by simp⟩
  | cons a as ih =>
      obtain ⟨bs, hsub, hspans⟩ := ih (r.resolve script registry plugins settings a)
      rw [List.foldl_cons, hspans]
      rcases spans_resolve script registry plugins settings r a with h | h
      · exact ⟨a :: bs, hsub.cons_cons a, by rw [h, List.append_assoc]; rfl⟩
      · exact ⟨bs, hsub.cons a, by rw [h]⟩

variable {script : Script}

/-- The spans that may be replaced in the second pass. -/
def Script.Replaceable (script : Script) (s : Span) : Prop :=
  ∃ a ∈ accesses .other script.tree, s = a.replaced

theorem confined_resolveMembers [Script.Reader] (hs : script.Sound) (registry : Registry)
    (plugins : List Plugin) (settings : Settings) (excluded : List Span) (offsets : Nat → Prop) :
    (resolveMembers script registry plugins settings excluded).edits.Confined script.source.toList
      (Planned offsets script.Replaceable) := by
  obtain ⟨bs, hsub, hspans⟩ := spans_foldl_resolve script registry plugins settings
    (script.accessesOutside excluded) {}
  have hall : bs.Sublist (accesses .other script.tree) := hsub.trans List.filter_sublist
  have hspread := spread_accesses hs.nested .other
  have hspans : (resolveMembers script registry plugins settings excluded).edits.spans
      = bs.map Access.replaced := hspans
  refine ⟨?_, ?_, ?_⟩
  · intro s h
    rw [hspans] at h
    obtain ⟨a, ha, rfl⟩ := List.mem_map.mp h
    exact hspread.slices a (hall.subset ha)
  · rw [hspans]
    exact List.pairwise_map.mpr (hspread.apart.sublist hall)
  · intro s h
    rw [hspans] at h
    obtain ⟨a, ha, rfl⟩ := List.mem_map.mp h
    exact .inr ⟨a, hall.subset ha, rfl⟩

/-- Text can be inserted where no access goes across. -/
theorem insertable_of_clear {offsets : Nat → Prop} {n : Nat} (hn : offsets n)
    (hboundary : IsBoundary script.source.toList n) (hclear : script.tree.Clear n) :
    Edits.Insertable script.source.toList (Planned offsets script.Replaceable) n := by
  refine Edits.insertable_planned hn hboundary ?_
  rintro _ ⟨a, ha, rfl⟩
  exact (hclear .other a ha).symm

theorem resolveScriptSetup_eq_ok [Script.Reader] (hs : script.Sound) (registry : Registry)
    (plugins : List Plugin) (settings : Settings) :
    ∃ code, resolveScriptSetup script registry plugins settings = .ok code := by
  have hslots : ∀ n, script.Slot n → Edits.Insertable script.source.toList
      (Planned script.Slot script.Replaceable) n :=
    fun n hn => insertable_of_clear hn (hn.isBoundary hs) (hn.clear hs)
  have hresolved := confined_resolveMembers hs registry plugins settings
    (script.defineOptions?.toList.map Tree.span) script.Slot
  have hhoisted := hresolved.hoisted hslots
  exact applyEdits_text_eq_ok ((hhoisted _ settings _).insertAfterImports hslots _ _)

/-- The body of the setup function begins where no access goes across. -/
theorem setupBody_clear (hs : script.Sound) {component : Component}
    (hc : script.component = .ok (some component)) {n : Nat}
    (hn : setupBodyStart? component = some n) :
    IsBoundary script.source.toList n ∧ script.tree.Clear n := by
  obtain ⟨item, hitem, -, -, hobject, hkind⟩ := Script.componentIn_holds hc
  obtain ⟨setup, hsetup, hn⟩ := Option.bind_eq_some_iff.mp hn
  obtain ⟨f, hf, hn⟩ := Option.bind_eq_some_iff.mp hn
  split at hn
  · rename_i block hbody
    cases hn
    have hvalue := Script.properties_holds (hkind ▸ nofun) hsetup
    obtain ⟨hblock, hbraced⟩ := Script.asFunction?_holds hf hbody
    have hitem' := hs.row.nested item hitem
    have hway := (hobject.trans hvalue).trans hblock
    have hnested := hway.nested hitem'
    have hbrace := hnested.braced (by rw [hbraced]; rfl)
    have hclear := Tree.clear_behind_brace hnested (by rw [hbraced]; rfl)
    obtain ⟨hlo, hhi⟩ := hway.inside hitem'
    have hstart : block.span.start ≤ block.span.start + 1 := Nat.le_succ _
    have hstop : block.span.start + 1 ≤ block.span.stop := hbrace.lt_stop
    refine ⟨hbrace.isBoundary, hs.clear_of_item hitem (hway.clear hitem' hclear hstart hstop) ?_ ?_⟩
    · exact Nat.le_trans hlo hstart
    · exact Nat.le_trans hstop hhi
  · cases hn

theorem confined_insertIntoSetup {text : List Char} {planned : Span → Prop} {edits : Edits}
    {component : Option Component} (h : edits.Confined text planned)
    (hbody : ∀ n, component.bind setupBodyStart? = some n → Edits.Insertable text planned n)
    (code : String) : (insertIntoSetup component edits code).Confined text planned := by
  unfold insertIntoSetup
  split
  · rename_i offset hoffset
    split
    · exact h
    · exact h.insert (hbody offset hoffset) _
  · exact h

/-- The only error is that of a script that defines no component. -/
theorem faults_resolveSetupFunction [Script.Reader] (hs : script.Sound) (registry : Registry)
    (plugins : List Plugin) (settings : Settings) :
    Faults TransformError.IsOfScript (resolveSetupFunction script registry plugins settings) := by
  refine .bind (.mapError fun _ _ => trivial) fun component hc => .of_eq_ok ?_
  have hcomponent : script.component = .ok component := eq_ok_of_mapError hc
  have hslots : ∀ n, script.Slot n → Edits.Insertable script.source.toList
      (Planned (fun n => script.Slot n ∨ component.bind setupBodyStart? = some n)
        script.Replaceable) n :=
    fun n hn => insertable_of_clear (.inl hn) (hn.isBoundary hs) (hn.clear hs)
  have hbody : ∀ n, component.bind setupBodyStart? = some n → Edits.Insertable script.source.toList
      (Planned (fun n => script.Slot n ∨ component.bind setupBodyStart? = some n)
        script.Replaceable) n := by
    intro n hn
    obtain ⟨c, rfl, hstart⟩ := Option.bind_eq_some_iff.mp hn
    obtain ⟨hboundary, hclear⟩ := setupBody_clear hs hcomponent hstart
    exact insertable_of_clear (.inr hn) hboundary hclear
  have hresolved := confined_resolveMembers hs registry plugins settings
  refine applyEdits_text_eq_ok (confined_insertIntoSetup (.hoisted ?_ hslots _ _ _) hbody _)
  exact hresolved _ _

end SecondPass

/-! ## Both passes -/

section

variable [Script.Reader] (hr : Script.Reader.IsSound) {script : Script} {component : Component}

include hr

theorem sound_of_reread {applied : Applied} {dialect : Script.Dialect}
    (h : reread applied dialect = .ok script) : script.Sound :=
  hr.sound (eq_ok_of_mapError h)

theorem faults_recomposeScriptSetup (hs : script.Sound)
    (hc : script.component = .ok (some component)) {setupScript : Option Script}
    (hsetup : ∀ setup, setupScript = some setup → setup.Sound) (pass : OptionsPass)
    (plugins : List Plugin) (settings : Settings) :
    Faults TransformError.IsOfScript
      (recomposeScriptSetup script component setupScript pass plugins settings) := by
  refine .bind (.of_eq_ok (renderScriptSetup_eq_ok hs hc hsetup ..)) fun applied _ => ?_
  refine .bind ?_ fun leftover _ => .bind (.mapError fun _ _ => trivial) fun again hagain => ?_
  · cases setupScript with
    | none => exact .ok _
    | some setup => exact .of_eq_ok (removeDefaultExport_eq_ok hs hc)
  · have hs' := sound_of_reread hr hagain
    exact .bind (.of_eq_ok (resolveScriptSetup_eq_ok hs' ..)) fun _ _ => .ok _

theorem faults_recomposeSetupFunction (hs : script.Sound)
    (hc : script.component = .ok (some component)) (pass : OptionsPass) (plugins : List Plugin)
    (settings : Settings) :
    Faults TransformError.IsOfScript
      (recomposeSetupFunction script component pass plugins settings) := by
  refine .bind (.of_eq_ok (renderSetupFunction_eq_ok hs hc ..)) fun applied _ => ?_
  refine .bind (.mapError fun _ _ => trivial) fun again hagain => ?_
  exact .bind (faults_resolveSetupFunction (sound_of_reread hr hagain) _ _ _) fun _ _ => .ok _

/-- Whatever edits are recorded, they apply. -/
theorem faults_recompose (hs : script.Sound) (hc : script.component = .ok (some component))
    {setupScript : Option Script} (hsetup : ∀ setup, setupScript = some setup → setup.Sound)
    (options : Options) :
    Faults (options.Explains script) (recompose script component setupScript options) := by
  refine .bind (faults_transformOptions script _ options _) fun pass _ => ?_
  split
  · exact .ok _
  split
  · refine .bind ((faults_recomposeScriptSetup hr hs hc hsetup _ _ _).mono ?_) fun _ _ => .ok _
    exact fun _ => .inl
  · refine .bind ((faults_recomposeSetupFunction hr hs hc _ _ _).mono ?_) fun _ _ => .ok _
    exact fun _ => .inl

end

/-! ## Entry points -/

theorem faults_readComponent (script : Script) :
    Faults TransformError.IsOfScript (readComponent script) :=
  .mapError fun _ _ => trivial

/-- Moving a cause in a file makes no edit error of it. -/
theorem offsetBy_eq_edit {delta : Nat} {err : TransformError} {e : EditError}
    (h : err.offsetBy delta = .edit e) : err = .edit e := by
  cases err <;> cases h
  rfl

theorem inFile_eq_edit {d : Descriptor} {block : Block} {err : TransformError} {e : EditError}
    (h : err.inFile d block = .edit e) : err = .edit e := by
  unfold TransformError.inFile at h
  split at h <;> exact offsetBy_eq_edit h

section

variable [Script.Reader]

theorem faults_readScript (dialect : Script.Dialect) (source : String) :
    Faults TransformError.IsOfScript (readScript dialect source) :=
  .mapError fun _ _ => trivial

theorem faults_readSetupScript (d : Descriptor) (settings : Settings) :
    Faults (∀ e, · ≠ .edit e) (readSetupScript d settings) := by
  unfold readSetupScript
  split
  · exact .ok _
  · split
    · refine .bind (.mapError fun err herr e he => ?_) fun _ _ => .ok _
      rw [offsetBy_eq_edit he] at herr
      exact faults_readScript _ _ _ herr
    · exact .error nofun

variable (hr : Script.Reader.IsSound)

include hr

theorem sound_of_readScript {dialect : Script.Dialect} {source : String} {script : Script}
    (h : readScript dialect source = .ok script) : script.Sound :=
  hr.sound (eq_ok_of_mapError h)

theorem sound_of_readSetupScript {d : Descriptor} {settings : Settings} {setupScript : Option Script}
    (h : readSetupScript d settings = .ok setupScript) :
    ∀ setup, setupScript = some setup → setup.Sound := by
  unfold readSetupScript at h
  split at h
  · cases h
    exact nofun
  · split at h
    · obtain ⟨script, hscript, hsome⟩ := exists_of_bind_eq_ok h
      cases hsome
      rintro _ ⟨⟩
      exact sound_of_readScript hr (eq_ok_of_mapError hscript)
    · cases h

theorem faults_transformScript (source : String) (dialect : Script.Dialect) (options : Options) :
    Faults (fun e => e.IsOfScript ∨
        ∃ script, readScript dialect source = .ok script ∧ options.Fails script e)
      (transformScript source dialect options) := by
  refine .bind ((faults_readScript _ _).mono fun _ => .inl) fun script hscript => ?_
  refine .bind ((faults_readComponent _).mono fun _ => .inl) fun component hc => ?_
  split
  · exact .ok _
  · have hs := sound_of_readScript hr hscript
    have hnone : ∀ setup : Script, none = some setup → setup.Sound := nofun
    have hrecompose := faults_recompose hr hs (eq_ok_of_mapError hc) hnone
      (options.withTypeScript dialect.typescript)
    refine .bind (hrecompose.mono fun e he => ?_) fun recomposed _ => ?_
    · exact he.imp_right fun hfails => ⟨script, hscript, hfails⟩
    · split <;> exact .ok _

theorem editFaults_transformScript (source : String) (dialect : Script.Dialect) (options : Options)
    (e : EditError) (h : transformScript source dialect options = .error (.edit e)) :
    ∃ script, readScript dialect source = .ok script ∧ options.Raises script e :=
  (faults_transformScript hr source dialect options _ h).resolve_left id

/-- The causes of a block that are edit errors are answers of a plugin. -/
theorem faults_transformBlock (source : String) (d : Descriptor) (block : Block)
    (options : Options) :
    Faults (fun err => ∀ e, err = .edit e →
        ∃ script, readScript (Script.Dialect.ofLang? block.lang?) block.content = .ok script ∧
          options.Raises script e)
      (transformBlock source d block options) := by
  refine .bind (.mapError fun err herr e he => ?_) fun script hscript => ?_
  · rw [offsetBy_eq_edit he] at herr
    exact (faults_readScript _ _ _ herr).elim
  refine .bind (.mapError fun err herr e he => ?_) fun component hc => ?_
  · rw [offsetBy_eq_edit he] at herr
    exact (faults_readComponent _ _ herr).elim
  have hscript := eq_ok_of_mapError hscript
  have hc := eq_ok_of_mapError hc
  split
  · exact .ok _
  · refine .bind ((faults_readSetupScript d _).mono fun err hne e he => ?_) fun setupScript hsetup => ?_
    · exact absurd he (hne e)
    refine .bind (.mapError fun err herr e he => ⟨script, hscript, ?_⟩) fun recomposed _ => ?_
    · rw [inFile_eq_edit he] at herr
      have hexplained := faults_recompose hr (sound_of_readScript hr hscript)
        (eq_ok_of_mapError hc) (sound_of_readSetupScript hr hsetup) _ _ herr
      exact hexplained.resolve_left id
    · split <;> exact .ok _

theorem editFaults_transformBlock (source : String) (d : Descriptor) (block : Block)
    (options : Options) (e : EditError)
    (h : transformBlock source d block options = .error (.edit e)) :
    ∃ script, readScript (Script.Dialect.ofLang? block.lang?) block.content = .ok script ∧
      options.Raises script e :=
  faults_transformBlock hr source d block options _ h e rfl

end

/-- The edits of a transformation always apply: an edit error is one that a
plugin which is not built in gave as its answer to an option of the script, before
any edit was recorded. -/
theorem edit_error_raised [Script.Reader] (hr : Script.Reader.IsSound) (options : Options)
    (e : EditError) :
    (∀ source dialect, transformScript source dialect options = .error (.edit e) →
      ∃ script, readScript dialect source = .ok script ∧ options.Raises script e) ∧
    (∀ source, transformFile source options = .error (.edit e) →
      ∃ block script, (scan source).descriptor.script = some block ∧
        readScript (Script.Dialect.ofLang? block.lang?) block.content = .ok script ∧
        options.Raises script e) := by
  refine ⟨fun source dialect h => editFaults_transformScript hr source dialect options e h, ?_⟩
  intro source h
  unfold transformFile at h
  dsimp only at h
  split at h
  · cases h
  · cases h
  · rename_i block _ hblock
    obtain ⟨script, hread, hraised⟩ := editFaults_transformBlock hr source _ block options e h
    exact ⟨block, script, hblock, hread, hraised⟩

/-- A plugin that answers its option with an edit error of its own. -/
theorem edit_error_raised_refusal :
    let source := "<script>export default \x7b data: 1 \x7d</script>"
    let e : EditError := .outOfBounds ⟨0, 9⟩ 4
    let refusing : Plugin :=
      { name := "refusing", includes := fun _ o => o.name == "data",
        transform := fun _ _ => .error (.edit e) }
    let options : Options := { plugins := [(.pre, refusing)] }
    Script.Reader.IsSound ∧ transformFile source options = .error (.edit e) ∧
      ∃ block script, (scan source).descriptor.script = some block ∧
        readScript (Script.Dialect.ofLang? block.lang?) block.content = .ok script ∧
        options.Raises script e := by
  intro source e refusing options
  have h : transformFile source options = .error (.edit e) := by decide +kernel
  exact ⟨Script.Reader.isSound_read, h,
    (edit_error_raised Script.Reader.isSound_read options e).2 source h⟩

end Recompose
