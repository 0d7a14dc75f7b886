import Recompose.Composition
import Recompose.Proofs.ComponentRoundTrip
import Recompose.Proofs.OptionsPass

/-!
# The two entry points agree

A script is transformed on its own, or as the only block of a file. Both go
through `recomposedScript`, but each reads the language, moves the errors, trims
the code and recognizes a script that stays as it is by itself. This file shows
that they agree on all of this. Nothing is said about how scripts are read.
-/

namespace Recompose

open Script (Component)

/-! ## Errors and their places -/

namespace TransformError

variable {e : TransformError}

/-- The error at another place, if it has a place. -/
def mapSpan (f : Span → Span) : TransformError → TransformError
  | component e => component { e with span := f e.span }
  | scriptParse fault => scriptParse (fault.map f)
  | invalidDefaultExport s => invalidDefaultExport (f s)
  | missingReturn option s => missingReturn option (f s)
  | returnNotObject option s => returnNotObject option (f s)
  | scriptSetupExists s => scriptSetupExists (f s)
  | duplicateProperty name => duplicateProperty name
  | edit e => edit e
  | reparse fault => reparse (fault.map (·.map f))

/-- Causes that lie in the blocks of a component file, whatever their scripts
are. -/
def IsOfFile : TransformError → Prop
  | component _ | scriptSetupExists _ => True
  | scriptParse _ | invalidDefaultExport _ | missingReturn _ _ | returnNotObject _ _
  | duplicateProperty _ | edit _ | reparse _ => False

theorem IsOfScript.not_isOfFile (h : e.IsOfScript) : ¬ e.IsOfFile := by
  cases e <;> first | exact id | exact fun _ => h

/-- The place of a cause in a script moves with the script. -/
theorem offsetBy_of_not_isOfFile (h : ¬ e.IsOfFile) (delta : Nat) :
    e.offsetBy delta = e.mapSpan (·.shift delta) := by
  cases e with
  | component _ | scriptSetupExists _ => exact absurd trivial h
  | scriptParse _ | invalidDefaultExport _ | missingReturn _ _ | returnNotObject _ _
  | duplicateProperty _ | edit _ | reparse _ => rfl

theorem offsetBy_of_isOfFile (h : e.IsOfFile) (delta : Nat) : e.offsetBy delta = e := by
  cases e with
  | component _ | scriptSetupExists _ => rfl
  | scriptParse _ | invalidDefaultExport _ | missingReturn _ _ | returnNotObject _ _
  | duplicateProperty _ | edit _ | reparse _ => exact h.elim

end TransformError

/-! ## Scripts with causes of their own

Recomposing finds no fault in the file around a script. Unlike in the theorems
about edits, the trees of scripts may be any here. -/

section

variable {script : Script} {component : Component} {setupScript : Option Script}
  {pass : OptionsPass} {plugins : List Plugin} {settings : Settings}

theorem notOfFile_applyEdits {source : String} {edits : Edits} :
    Faults (¬ ·.IsOfFile) (applyEdits source edits) :=
  .mapError fun _ _ => id

theorem notOfFile_readScript [Script.Reader] {dialect : Script.Dialect} {source : String} :
    Faults (¬ ·.IsOfFile) (readScript dialect source) :=
  .mapError fun _ _ => id

theorem notOfFile_readComponent : Faults (¬ ·.IsOfFile) (readComponent script) :=
  .mapError fun _ _ => id

theorem notOfFile_reread [Script.Reader] {applied : Applied} {dialect : Script.Dialect} :
    Faults (¬ ·.IsOfFile) (reread applied dialect) :=
  .mapError fun _ _ => id

theorem notOfFile_renderScriptSetup {preserved : List String} :
    Faults (¬ ·.IsOfFile)
      (renderScriptSetup script component setupScript pass preserved settings) :=
  notOfFile_applyEdits

theorem notOfFile_leftoverScript :
    Faults (¬ ·.IsOfFile) (leftoverScript script component setupScript) := by
  cases setupScript with
  | none => exact .ok _
  | some setup => exact .bind notOfFile_applyEdits fun _ _ => .ok _

theorem notOfFile_resolveScriptSetup [Script.Reader] {registry : Registry} :
    Faults (¬ ·.IsOfFile) (resolveScriptSetup script registry plugins settings) :=
  .bind notOfFile_applyEdits fun _ _ => .ok _

theorem notOfFile_resolveSetupFunction [Script.Reader] {registry : Registry} :
    Faults (¬ ·.IsOfFile) (resolveSetupFunction script registry plugins settings) :=
  .bind notOfFile_readComponent fun _ _ => .bind notOfFile_applyEdits fun _ _ => .ok _

theorem notOfFile_recomposeScriptSetup [Script.Reader] :
    Faults (¬ ·.IsOfFile)
      (recomposeScriptSetup script component setupScript pass plugins settings) := by
  refine .bind notOfFile_renderScriptSetup fun applied _ => ?_
  refine .bind notOfFile_leftoverScript fun leftover _ => ?_
  refine .bind notOfFile_reread fun again _ => ?_
  exact .bind notOfFile_resolveScriptSetup fun _ _ => .ok _

theorem notOfFile_recomposeSetupFunction [Script.Reader] :
    Faults (¬ ·.IsOfFile)
      (recomposeSetupFunction script component pass plugins settings) := by
  refine .bind notOfFile_applyEdits fun applied _ => ?_
  refine .bind notOfFile_reread fun again _ => ?_
  exact .bind notOfFile_resolveSetupFunction fun _ _ => .ok _

/-- A fault in the file is the answer of a plugin that is not built in. -/
theorem fails_of_recompose [Script.Reader] (options : Options) :
    Faults (fun e => e.IsOfFile → options.Fails script e)
      (recompose script component setupScript options) := by
  refine .bind ((faults_transformOptions script _ options _).mono ?_) fun pass _ => ?_
  · rintro e (hscript | hfails) hfile
    · exact absurd hfile hscript.not_isOfFile
    · exact hfails
  split
  · exact .ok _
  split
  · refine .bind (notOfFile_recomposeScriptSetup.mono ?_) fun _ _ => .ok _
    exact fun e hnot hfile => absurd hfile hnot
  · refine .bind (notOfFile_recomposeSetupFunction.mono ?_) fun _ _ => .ok _
    exact fun e hnot hfile => absurd hfile hnot

end

/-! ## What both entry points do -/

theorem Block.isTypeScript_eq (block : Block) :
    block.isTypeScript = (Script.Dialect.ofLang? block.lang?).typescript := by
  unfold Block.isTypeScript Script.Dialect.ofLang?
  split
  · rename_i hlang
    rw [hlang]
    rfl
  · rename_i hlang
    rw [hlang]
    rfl
  · rename_i hlang
    rw [hlang]
    rfl
  · rename_i hts htsx _
    rw [decide_eq_false hts, decide_eq_false htsx]
    rfl

/-- Without a setup script, all causes lie in the script. -/
theorem TransformError.inFile_of_no_setup {d : Descriptor} (h : d.scriptSetup = none)
    (block : Block) (e : TransformError) :
    e.inFile d block = e.offsetBy block.contentSpan.start := by
  unfold TransformError.inFile
  rw [h]
  split <;> rfl

section

variable [Script.Reader]

/-- Reads a script and recomposes its component. Nothing when it stays as it
is. -/
def recomposedScript (source : String) (dialect : Script.Dialect) (options : Options) :
    Except TransformError (Option Recomposed) := do
  let script ← readScript dialect source
  match ← readComponent script with
  | none => return none
  | some component =>
    recompose script component none (options.withTypeScript dialect.typescript)

theorem transformScript_eq_map (source : String) (dialect : Script.Dialect) (options : Options) :
    transformScript source dialect options
      = (recomposedScript source dialect options).map fun recomposed =>
          match recomposed with
          | some recomposed => trim recomposed.code ++ "\n"
          | none => source := by
  unfold transformScript recomposedScript
  refine .trans (bind_congr fun script => ?_) (map_bind _ _ _).symm
  refine .trans (bind_congr fun component? => ?_) (map_bind _ _ _).symm
  cases component? with
  | none => rfl
  | some component =>
      dsimp only
      generalize recompose _ _ _ _ = result
      cases result with
      | error e => rfl
      | ok recomposed => cases recomposed <;> rfl

/-- Reads the script blocks of a file and recomposes the component of the script.
Nothing when the file stays as it is. -/
def recomposedBlock (d : Descriptor) (block : Block) (options : Options) :
    Except TransformError (Option Recomposed) := do
  let script ← inBlock block (readScript (Script.Dialect.ofLang? block.lang?) block.content)
  match ← inBlock block (readComponent script) with
  | none => return none
  | some component =>
    let setupScript ← readSetupScript d options.settings
    let options :=
      options.withTypeScript (block.isTypeScript || d.scriptSetup.any Block.isTypeScript)
    (recompose script component setupScript options).mapError (·.inFile d block)

theorem transformBlock_eq_map (source : String) (d : Descriptor) (block : Block)
    (options : Options) :
    transformBlock source d block options
      = (recomposedBlock d block options).map fun recomposed =>
          match recomposed with
          | some r => (placeRecomposed d block r options.settings.scriptSetup).render
          | none => source := by
  unfold transformBlock recomposedBlock
  refine .trans (bind_congr fun script => ?_) (map_bind _ _ _).symm
  refine .trans (bind_congr fun component? => ?_) (map_bind _ _ _).symm
  cases component? with
  | none => rfl
  | some component =>
      refine .trans (bind_congr fun setupScript => ?_) (map_bind _ _ _).symm
      dsimp only
      generalize Except.mapError _ _ = result
      cases result with
      | error e => rfl
      | ok recomposed => cases recomposed <;> rfl

/-- Without a setup script, a block is recomposed as a script is, and its faults are
moved. -/
theorem recomposedBlock_of_no_setup {d : Descriptor} (h : d.scriptSetup = none) (block : Block)
    (options : Options) :
    recomposedBlock d block options
      = (recomposedScript block.content (Script.Dialect.ofLang? block.lang?) options).mapError
          (·.offsetBy block.contentSpan.start) := by
  have hsetup : readSetupScript d options.settings = .ok none := by
    rw [readSetupScript, h]
  have htypescript : (block.isTypeScript || d.scriptSetup.any Block.isTypeScript)
      = (Script.Dialect.ofLang? block.lang?).typescript := by
    rw [h, Option.any_none, Bool.or_false, Block.isTypeScript_eq]
  unfold recomposedBlock recomposedScript inBlock
  rw [hsetup, htypescript, mapError_bind]
  simp only [TransformError.inFile_of_no_setup h]
  refine bind_congr fun script => ?_
  rw [mapError_bind]
  refine bind_congr fun component? => ?_
  cases component? <;> rfl

/-! ## Scripts that stay as they are -/

/-- A script that defines no component, or one with no option that a plugin
includes. -/
def LeftAlone (source : String) (dialect : Script.Dialect) (options : Options) : Prop :=
  ∃ script, readScript dialect source = .ok script ∧
    (readComponent script = .ok none ∨
      ∃ component, readComponent script = .ok (some component) ∧
        ∀ property ∈ component.object.parts,
          OptionsPass.includes script options.allPlugins
            (options.withTypeScript dialect.typescript).settings property = false)

theorem recompose_eq_none_iff {script : Script} {component : Component} {options : Options}
    {setupScript : Option Script} :
    recompose script component setupScript options = .ok none ↔
      ∀ property ∈ component.object.parts,
        OptionsPass.includes script options.allPlugins options.settings property = false := by
  rw [← transformOptions_matched_eq_zero_iff]
  constructor
  · intro h
    obtain ⟨pass, hpass, h⟩ := exists_of_bind_eq_ok h
    refine ⟨pass, hpass, ?_⟩
    by_cases hzero : pass.matched = 0
    · exact hzero
    · rw [if_neg hzero] at h
      split at h
      · obtain ⟨recomposed, -, h⟩ := exists_of_bind_eq_ok h
        cases h
      · obtain ⟨recomposed, -, h⟩ := exists_of_bind_eq_ok h
        cases h
  · rintro ⟨pass, hpass, hzero⟩
    unfold recompose
    simp only [hpass, bind, Except.bind, hzero, if_true]
    rfl

theorem recomposedScript_eq_none_iff {source : String} {dialect : Script.Dialect}
    {options : Options} :
    recomposedScript source dialect options = .ok none ↔ LeftAlone source dialect options := by
  unfold recomposedScript LeftAlone
  constructor
  · intro h
    obtain ⟨script, hscript, h⟩ := exists_of_bind_eq_ok h
    obtain ⟨component?, hcomponent, h⟩ := exists_of_bind_eq_ok h
    refine ⟨script, hscript, ?_⟩
    cases component? with
    | none => exact .inl hcomponent
    | some component => exact .inr ⟨component, hcomponent, recompose_eq_none_iff.mp h⟩
  · rintro ⟨script, hscript, hcomponent | ⟨component, hcomponent, h⟩⟩
    · simp only [hscript, hcomponent, bind, Except.bind]
      rfl
    · simp only [hscript, hcomponent, bind, Except.bind]
      exact recompose_eq_none_iff.mpr h

/-- A fault in the file is the answer of a plugin that is not built in. -/
theorem fails_of_recomposedScript (source : String) (dialect : Script.Dialect)
    (options : Options) :
    Faults (fun e => e.IsOfFile →
        ∃ script, readScript dialect source = .ok script ∧ options.Fails script e)
      (recomposedScript source dialect options) := by
  refine .bind (notOfFile_readScript.mono ?_) fun script hscript => ?_
  · exact fun e hnot hfile => absurd hfile hnot
  refine .bind (notOfFile_readComponent.mono ?_) fun component? _ => ?_
  · exact fun e hnot hfile => absurd hfile hnot
  cases component? with
  | none => exact .ok _
  | some component =>
      refine (fails_of_recompose _).mono fun e hfails hfile => ⟨script, hscript, ?_⟩
      exact hfails hfile

end

/-! ## Files with one script -/

/-- The opening tag of a script block. -/
def scriptTag (setup : Bool) (lang : Option String) : String :=
  "<script" ++ (if setup then " setup" else "") ++
    (match lang with
      | some lang => " lang=\"" ++ lang ++ "\""
      | none => "") ++ ">"

/-- The text of a script block. -/
def soleScript (setup : Bool) (lang : Option String) (content : String) : String :=
  scriptTag setup lang ++ content ++ "</script>"

/-- The script block that is read from such a text. -/
def scriptBlock (setup : Bool) (lang : Option String) (content : String) : Block where
  tag := "script"
  attrs := (if setup then [("setup", none)] else []) ++ lang.toList.map (("lang", some ·))
  content := content

theorem render_scriptBlock (setup : Bool) (lang : Option String) (content : String) :
    (scriptBlock setup lang content).render = soleScript setup lang content := by
  apply String.toList_injective
  cases setup <;> cases lang <;>
    simp [soleScript, scriptTag, Block.toList_render, scriptBlock, closeTagChars, attrsChars,
      attrChars]

theorem isBlockTag_script : IsBlockTag "script" :=
  ⟨⟨_, _, rfl, by decide⟩, List.all_eq_true.mp (by decide), by decide⟩

theorem isAttrName_lang : IsAttrName "lang" := by decide

section

variable {lang : Option String} {content : String}

theorem printable_scriptBlock (hlang : ∀ text ∈ lang, '"' ∉ text.toList)
    (hcontent : NoCloseTag "script".toList content.toList) :
    (scriptBlock false lang content).Printable where
  tag := isBlockTag_script
  attrs := by
    intro attr hattr
    obtain ⟨text, htext, rfl⟩ := List.mem_map.mp hattr
    refine ⟨isAttrName_lang, fun value hvalue => ?_⟩
    cases hvalue
    exact hlang text (Option.mem_toList.mp htext)
  names := by
    cases lang <;> simp [scriptBlock, Entries.names]
  content := by
    have htag : (scriptBlock false lang content).tag ≠ "template" := by
      change "script" ≠ "template"
      decide
    rw [IsContent, if_neg htag]
    exact hcontent

/-- The block as it stands in the file that holds nothing else. -/
def soleBlock (lang : Option String) (content : String) : Block :=
  (scriptBlock false lang content).placed (byteSize (soleScript false lang content).toList) []

@[simp] theorem content_soleBlock : (soleBlock lang content).content = content := rfl

@[simp] theorem tag_soleBlock : (soleBlock lang content).tag = "script" := rfl

@[simp] theorem attrs_soleBlock :
    (soleBlock lang content).attrs = lang.toList.map (("lang", some ·)) := rfl

@[simp] theorem lang?_soleBlock : (soleBlock lang content).lang? = lang := by
  unfold Block.lang?
  rw [attrs_soleBlock]
  cases lang <;> rfl

@[simp] theorem isSetup_soleBlock : (soleBlock lang content).isSetup = false := by
  unfold Block.isSetup
  rw [attrs_soleBlock]
  cases lang <;> rfl

theorem contentStart_soleBlock :
    (soleBlock lang content).contentSpan.start = byteSize (scriptTag false lang).toList := by
  show byteSize (soleScript false lang content).toList
    - byteSize (content.toList ++ (closeTagChars "script" ++ [])) = _
  have hclose : closeTagChars "script" = "</script>".toList := by decide
  rw [soleScript, hclose, List.append_nil]
  simp only [String.toList_append, byteSize_append]
  omega

theorem scan_soleScript (hlang : ∀ text ∈ lang, '"' ∉ text.toList)
    (hcontent : NoCloseTag "script".toList content.toList) :
    scan (soleScript false lang content) = ⟨{ script := some (soleBlock lang content) }, []⟩ := by
  have hread := readBlocks_render (printable_scriptBlock hlang hcontent)
    (byteSize (soleScript false lang content).toList) []
  have hnil : readBlocks (byteSize (soleScript false lang content).toList) [] = ([], none) := by
    rw [readBlocks]
  rw [List.append_nil, render_scriptBlock, hnil] at hread
  have hfile : Scan.file {} (soleBlock lang content)
      = ⟨{ script := some (soleBlock lang content) }, []⟩ := by
    simp [Scan.file]
  rw [← soleBlock] at hread
  simp only [scan, hread, List.foldl_cons, List.foldl_nil, hfile]
  rfl

/-- A block is written without regard to its place. -/
theorem Block.render_congr {a b : Block} (h : a.unplaced = b.unplaced) : a.render = b.render := by
  have hrender : ∀ b : Block, b.render = b.unplaced.render := fun _ => by
    unfold Block.render Block.unplaced
    rfl
  rw [hrender a, hrender b, h]

/-- What is written for a file that holds one block. -/
theorem render_of_one_block {d : Descriptor} {b : Block}
    (h : d.blocks.map Block.unplaced = [b.unplaced]) : d.render = b.render ++ "\n" := by
  obtain ⟨b', hblocks, hb'⟩ := List.map_eq_singleton_iff.mp h
  have hlist : d.render.toList = spacedChars [] ++ (b'.render.toList ++ ['\n']) :=
    toList_render_of_blocks hblocks
  apply String.toList_injective
  rw [hlist, Block.render_congr hb', String.toList_append]
  simp [spacedChars]

/-- The recomposed code takes the place of the script, as a setup script or as it
was. -/
theorem render_placeRecomposed (recomposed : Recomposed) (scriptSetup : Bool) :
    (placeRecomposed { script := some (soleBlock lang content) } (soleBlock lang content) recomposed
      scriptSetup).render
      = soleScript scriptSetup lang ("\n" ++ (trim recomposed.code ++ "\n")) ++ "\n" := by
  have hcontent : blockContent recomposed.code = "\n" ++ (trim recomposed.code ++ "\n") := by
    rw [blockContent, String.append_assoc]
  have herase : Entries.erase (lang.toList.map (("lang", some ·))) "setup"
      = lang.toList.map (("lang", some ·)) := by
    cases lang <;> simp [Entries.erase]
  rw [← render_scriptBlock, ← hcontent]
  apply render_of_one_block
  cases scriptSetup with
  | false => simp [placeRecomposed, Descriptor.blocks, Block.unplaced, scriptBlock]
  | true => simp [placeRecomposed, Descriptor.blocks, Block.unplaced, scriptBlock, herase]

/-- Transforming the file is recomposing its script. -/
theorem transformFile_soleScript_eq_map [Script.Reader]
    (hlang : ∀ text ∈ lang, '"' ∉ text.toList)
    (hcontent : NoCloseTag "script".toList content.toList) (options : Options) :
    transformFile (soleScript false lang content) options
      = ((recomposedScript content (Script.Dialect.ofLang? lang) options).mapError
          (·.offsetBy (byteSize (scriptTag false lang).toList))).map fun recomposed =>
            match recomposed with
            | some recomposed =>
              soleScript options.settings.scriptSetup lang
                ("\n" ++ (trim recomposed.code ++ "\n")) ++ "\n"
            | none => soleScript false lang content := by
  unfold transformFile
  rw [scan_soleScript hlang hcontent]
  dsimp only
  rw [transformBlock_eq_map, recomposedBlock_of_no_setup rfl]
  simp only [render_placeRecomposed, content_soleBlock, lang?_soleBlock, contentStart_soleBlock]

end

/-! ## Agreement -/

/-- Transforming a script on its own and as the only block of a file agree. An
error lies at the same place of the script, unless a plugin that is not built in
gave an error about the file; a script that stays as it is does so in both; any
other script is replaced in the file by what it is transformed to. -/
theorem transformFile_soleScript [Script.Reader] (lang : Option String) (code : String)
    (options : Options) (hlang : ∀ text ∈ lang, '"' ∉ text.toList)
    (hcode : NoCloseTag "script".toList code.toList) :
    let dialect := Script.Dialect.ofLang? lang
    let file := soleScript false lang code
    let offset := byteSize (scriptTag false lang).toList
    (∀ e, transformScript code dialect options = .error e →
      transformFile file options = .error (e.mapSpan (·.shift offset)) ∨
        e.IsOfFile ∧ transformFile file options = .error e ∧
          ∃ script, readScript dialect code = .ok script ∧ options.Fails script e) ∧
    (LeftAlone code dialect options →
      transformScript code dialect options = .ok code ∧ transformFile file options = .ok file) ∧
    (∀ text, transformScript code dialect options = .ok text → ¬ LeftAlone code dialect options →
      transformFile file options
        = .ok (soleScript options.settings.scriptSetup lang ("\n" ++ text) ++ "\n")) := by
  intro dialect file offset
  have hscript := transformScript_eq_map code dialect options
  have hfile := transformFile_soleScript_eq_map hlang hcode options
  have hfails := fails_of_recomposedScript code dialect options
  rw [← recomposedScript_eq_none_iff]
  cases hrecomposed : recomposedScript code dialect options with
  | error err =>
      rw [hrecomposed] at hscript hfile hfails
      refine ⟨?_, nofun, ?_⟩
      · intro e he
        rw [hscript] at he
        cases he
        by_cases hof : err.IsOfFile
        · refine .inr ⟨hof, ?_, hfails err rfl hof⟩
          rw [hfile, mapError_error, TransformError.offsetBy_of_isOfFile hof]
          rfl
        · refine .inl ?_
          rw [hfile, mapError_error, TransformError.offsetBy_of_not_isOfFile hof]
          rfl
      · intro text htext
        rw [hscript] at htext
        cases htext
  | ok recomposed =>
      rw [hrecomposed] at hscript hfile
      refine ⟨?_, ?_, ?_⟩
      · intro e he
        rw [hscript] at he
        cases he
      · intro hnone
        cases hnone
        exact ⟨hscript, hfile⟩
      · intro text htext hsome
        rw [hscript] at htext
        cases recomposed with
        | none => exact absurd rfl hsome
        | some recomposed =>
            have htext : trim recomposed.code ++ "\n" = text := Except.ok.inj htext
            rw [← htext]
            exact hfile

theorem transformFile_soleScript_invalid :
    (∀ text ∈ some "ts", '"' ∉ text.toList) ∧ NoCloseTag "script".toList "export default 1".toList ∧
      transformFile "<script lang=\"ts\">export default 1</script>" {}
        = .error (.invalidDefaultExport ⟨18, 34⟩) := by
  have hlang : ∀ text ∈ some "ts", '"' ∉ text.toList := by decide
  have hcode : NoCloseTag "script".toList "export default 1".toList := by decide
  have hscript : transformScript "export default 1" (Script.Dialect.ofLang? (some "ts")) {}
      = .error (.invalidDefaultExport ⟨0, 16⟩) := by rfl
  refine ⟨hlang, hcode, ?_⟩
  rcases (transformFile_soleScript (some "ts") "export default 1" {} hlang hcode).1 _ hscript with
    h | ⟨hfile, -⟩
  · exact h
  · exact hfile.elim

end Recompose
