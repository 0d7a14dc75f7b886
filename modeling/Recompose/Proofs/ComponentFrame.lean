import Recompose.Proofs.ComponentPlaces
import Recompose.Proofs.EntryPoints

/-!
# What is kept of a component file

A file whose component is recomposed is written from its descriptor, in which only
the script blocks are other ones (`placeRecomposed`). So all other blocks are read
from the new file as they were, and the script blocks with the new code, unless the
code holds a closing tag of scripts: a script block ends at the first one.

`transformFile_keepsBlocks` says that nothing else can go wrong. The blanks around the
code do not matter, since a closing tag neither begins nor ends with one
(`noCloseTag_blockContent`).
-/

namespace Recompose

/-! ## Closing tags between blanks -/

section

variable {tag cs blanks : List Char}

theorem noCloseTag_append_iff_right (h : ∀ c ∈ blanks, isBlank c = true) :
    NoCloseTag tag (blanks ++ cs) ↔ NoCloseTag tag cs := by
  induction blanks with
  | nil => exact Iff.rfl
  | cons c blanks ih =>
      obtain ⟨hc, hblanks⟩ := List.forall_mem_cons.mp h
      have hnone : readCloseTag? tag (c :: (blanks ++ cs)) = none := by
        rw [readCloseTag?_eq_none_iff]
        rintro close post hsplit ⟨name, more, rfl, -⟩
        rw [(List.cons.inj hsplit).1] at hc
        exact absurd hc (by decide)
      rw [List.cons_append, noCloseTag_cons, ih hblanks]
      exact and_iff_right hnone

theorem noCloseTag_append_iff_left (h : ∀ c ∈ blanks, isBlank c = true) :
    NoCloseTag tag (cs ++ blanks) ↔ NoCloseTag tag cs := by
  constructor
  · rintro hwhole pre close post rfl
    exact hwhole pre close (post ++ blanks) (by simp)
  · rintro hcs pre close post hsplit hclose
    obtain ⟨name, more, heq, -⟩ := id hclose
    -- The tag ends in the text, for its last character is no blank.
    have hend : cs ++ blanks = (pre ++ '<' :: '/' :: (name ++ more)) ++ '>' :: post := by
      rw [hsplit, heq]
      simp
    rcases List.append_eq_append_iff.mp hend with ⟨mid, -, hblanks⟩ | ⟨mid, hmid, hpost⟩
    · have hgt : '>' ∈ blanks := by simp [hblanks]
      exact absurd (h _ hgt) (by decide)
    · cases mid with
      | nil =>
          have hgt : '>' ∈ blanks := by
            rw [List.nil_append] at hpost
            exact hpost ▸ List.mem_cons_self ..
          exact absurd (h _ hgt) (by decide)
      | cons d mid =>
          obtain ⟨rfl, -⟩ := List.cons.inj hpost
          exact hcs pre close mid (by simp [hmid, heq]) hclose

end

/-- A text is what is left of it when it is trimmed, between blanks. -/
theorem exists_trim (text : String) :
    ∃ before after, text.toList = before ++ ((trim text).toList ++ after) ∧
      (∀ c ∈ before, isBlank c = true) ∧ ∀ c ∈ after, isBlank c = true := by
  have hstart : text.toList = text.toList.takeWhile isBlank ++ trimStart text.toList :=
    List.takeWhile_append_dropWhile.symm
  have hend : ∀ cs : List Char, cs = trimEnd cs ++ (cs.reverse.takeWhile isBlank).reverse := by
    intro cs
    rw [trimEnd, ← List.reverse_append, List.takeWhile_append_dropWhile, List.reverse_reverse]
  refine ⟨text.toList.takeWhile isBlank,
    ((trimStart text.toList).reverse.takeWhile isBlank).reverse, ?_,
    List.all_eq_true.mp List.all_takeWhile, ?_⟩
  · rw [trim, String.toList_ofList, ← hend, ← hstart]
  · intro c hc
    exact List.all_eq_true.mp List.all_takeWhile c (List.mem_reverse.mp hc)

theorem noCloseTag_blockContent {tag : List Char} {code : String} :
    NoCloseTag tag (blockContent code).toList ↔ NoCloseTag tag code.toList := by
  obtain ⟨before, after, hcode, hbefore, hafter⟩ := exists_trim code
  have hfeed : ∀ c ∈ ['\n'], isBlank c = true := List.all_eq_true.mp (by decide)
  have hblock : (blockContent code).toList = ['\n'] ++ ((trim code).toList ++ ['\n']) := by
    simp [blockContent]
  rw [hcode, hblock, noCloseTag_append_iff_right hfeed, noCloseTag_append_iff_left hfeed,
    noCloseTag_append_iff_right hbefore, noCloseTag_append_iff_left hafter]

/-! ## Recomposing a file -/

section

variable [Script.Reader]

/-- Recomposes the component of a file. Nothing when the file stays as it is. -/
def recomposedFile (source : String) (options : Options) :
    Except TransformError (Option Recomposed) :=
  let scanned := scan source
  match scanned.errors, scanned.descriptor.script with
  | e :: _, _ => .error (.component e)
  | [], none => .ok none
  | [], some block => recomposedBlock scanned.descriptor block options

/-- The file with its component recomposed. -/
def fileWith (source : String) (scriptSetup : Bool) (recomposed : Option Recomposed) : String :=
  let d := (scan source).descriptor
  match d.script, recomposed with
  | some block, some r => (placeRecomposed d block r scriptSetup).render
  | _, _ => source

/-- Transforming a file is recomposing its component. -/
theorem transformFile_eq_map (source : String) (options : Options) :
    transformFile source options
      = (recomposedFile source options).map (fileWith source options.settings.scriptSetup) := by
  unfold transformFile recomposedFile fileWith
  dsimp only
  cases (scan source).errors with
  | cons e errors => rfl
  | nil =>
      cases (scan source).descriptor.script with
      | none => rfl
      | some block =>
          dsimp only
          rw [transformBlock_eq_map]
          congr 1
          funext recomposed
          cases recomposed <;> rfl

/-- Without another script to move to, no code is left behind. -/
theorem leftover_of_recompose {script : Script} {component : Script.Component}
    {options : Options} {r : Recomposed}
    (h : recompose script component none options = .ok (some r)) : r.leftover = none := by
  obtain ⟨pass, -, h⟩ := exists_of_bind_eq_ok h
  split at h
  · cases h
  split at h
  · obtain ⟨recomposed, hrecompose, h⟩ := exists_of_bind_eq_ok h
    obtain rfl := Option.some.inj (Except.ok.inj h)
    obtain ⟨applied, -, hrecompose⟩ := exists_of_bind_eq_ok hrecompose
    obtain ⟨leftover, hleftover, hrecompose⟩ := exists_of_bind_eq_ok hrecompose
    obtain ⟨again, -, hrecompose⟩ := exists_of_bind_eq_ok hrecompose
    obtain ⟨code, -, hrecompose⟩ := exists_of_bind_eq_ok hrecompose
    obtain rfl := Except.ok.inj hrecompose
    exact (Except.ok.inj hleftover).symm
  · obtain ⟨recomposed, hrecompose, h⟩ := exists_of_bind_eq_ok h
    obtain rfl := Option.some.inj (Except.ok.inj h)
    obtain ⟨applied, -, hrecompose⟩ := exists_of_bind_eq_ok hrecompose
    obtain ⟨again, -, hrecompose⟩ := exists_of_bind_eq_ok hrecompose
    obtain ⟨code, -, hrecompose⟩ := exists_of_bind_eq_ok hrecompose
    obtain rfl := Except.ok.inj hrecompose
    rfl

/-- A file is recomposed from its script. In a file with a setup script, the component
becomes one, and only there code is left behind. -/
theorem exists_of_recomposedFile {source : String} {options : Options} {r : Recomposed}
    (h : recomposedFile source options = .ok (some r)) :
    ∃ block, (scan source).descriptor.script = some block ∧
      (options.settings.scriptSetup = false → (scan source).descriptor.scriptSetup = none) ∧
      ((scan source).descriptor.scriptSetup = none → r.leftover = none) := by
  unfold recomposedFile at h
  dsimp only at h
  split at h
  · cases h
  · cases h
  rename_i block _ hblock
  refine ⟨block, hblock, ?_⟩
  obtain ⟨script, -, h⟩ := exists_of_bind_eq_ok h
  obtain ⟨component?, -, h⟩ := exists_of_bind_eq_ok h
  cases component? with
  | none => cases h
  | some component =>
      obtain ⟨setupScript, hsetup, h⟩ := exists_of_bind_eq_ok h
      have hrecompose := eq_ok_of_mapError h
      unfold readSetupScript at hsetup
      cases hd : (scan source).descriptor.scriptSetup with
      | none =>
          rw [hd] at hsetup
          obtain rfl := Except.ok.inj hsetup
          exact ⟨fun _ => rfl, fun _ => leftover_of_recompose hrecompose⟩
      | some setup =>
          rw [hd] at hsetup
          refine ⟨fun hplain => ?_, nofun⟩
          simp [hplain] at hsetup

end

/-! ## Script blocks with other contents -/

theorem isContent_blockContent {code : String} (h : NoCloseTag "script".toList code.toList) :
    IsContent "script" (blockContent code) := by
  rw [IsContent, if_neg (by decide)]
  exact noCloseTag_blockContent.mpr h

theorem Block.Printable.withCode {b : Block} (hb : b.Printable) (htag : b.tag = "script")
    {code : String} (h : NoCloseTag "script".toList code.toList) :
    ({ b with content := blockContent code } : Block).Printable where
  tag := hb.tag
  attrs := hb.attrs
  names := hb.names
  content := by
    dsimp only
    rw [htag]
    exact isContent_blockContent h

/-- The attributes of a script that becomes the setup script. -/
theorem Block.Printable.asSetup {b : Block} (hb : b.Printable) :
    ({ b with attrs := ("setup", none) :: b.attrs.erase "setup" } : Block).Printable where
  tag := hb.tag
  attrs := by
    rw [List.forall_mem_cons]
    exact ⟨by decide, fun attr hattr => hb.attrs attr (List.mem_filter.mp hattr).1⟩
  names := by
    have hsub : (b.attrs.erase "setup").names.Sublist b.attrs.names :=
      List.filter_sublist.map _
    refine List.nodup_cons.mpr ⟨fun hmem => ?_, hsub.nodup hb.names⟩
    obtain ⟨attr, hattr, hname⟩ := List.mem_map.mp hmem
    simpa [hname] using (List.mem_filter.mp hattr).2
  content := hb.content

/-- A descriptor can be written with other script blocks, too. -/
theorem Descriptor.Printable.withScripts {d : Descriptor} (hd : d.Printable)
    {script scriptSetup : Option Block}
    (hscript : ∀ b ∈ script, b.Printable ∧ b.tag = "script" ∧ b.isSetup = false)
    (hsetup : ∀ b ∈ scriptSetup, b.Printable ∧ b.tag = "script" ∧ b.isSetup = true) :
    ({ d with script, scriptSetup } : Descriptor).Printable where
  slots :=
    { hd.slots with
      script := fun b hb => (hscript b hb).2
      scriptSetup := fun b hb => (hsetup b hb).2 }
  blocks := by
    have hblocks := hd.blocks
    simp only [Descriptor.blocks, List.forall_mem_append, Option.mem_toList] at hblocks ⊢
    obtain ⟨⟨⟨⟨-, htemplate⟩, -⟩, hstyles⟩, hcustom⟩ := hblocks
    exact ⟨⟨⟨⟨fun b hb => (hsetup b hb).1, htemplate⟩, fun b hb => (hscript b hb).1⟩, hstyles⟩,
      hcustom⟩

theorem printable_placeRecomposed {d : Descriptor} {block : Block} {r : Recomposed}
    (scriptSetup : Bool) (hd : d.Printable) (hblock : d.script = some block)
    (hcode : NoCloseTag "script".toList r.code.toList)
    (hleftover : ∀ code ∈ r.leftover, NoCloseTag "script".toList code.toList) :
    (placeRecomposed d block r scriptSetup).Printable := by
  have hblocks := hd.blocks
  simp only [Descriptor.blocks, List.forall_mem_append, Option.mem_toList] at hblocks
  obtain ⟨⟨⟨⟨hsetups, -⟩, hscripts⟩, -⟩, -⟩ := hblocks
  have hprint : block.Printable := hscripts block hblock
  obtain ⟨htag, hplain⟩ := hd.slots.script block hblock
  unfold placeRecomposed
  dsimp only
  split
  · refine hd.withScripts (fun b hb => ?_) fun b hb => ⟨hsetups b hb, hd.slots.scriptSetup b hb⟩
    obtain rfl := Option.some.inj hb
    exact ⟨hprint.withCode htag hcode, htag, hplain⟩
  split
  · rename_i setup hsetup
    obtain ⟨hsetupTag, hisSetup⟩ := hd.slots.scriptSetup setup hsetup
    refine hd.withScripts (fun b hb => ?_) fun b hb => ?_
    · obtain ⟨code, hmem, rfl⟩ := Option.map_eq_some_iff.mp hb
      exact ⟨hprint.withCode htag (hleftover code hmem), htag, hplain⟩
    · obtain rfl := Option.some.inj hb
      exact ⟨(hsetups setup hsetup).withCode hsetupTag hcode, hsetupTag, hisSetup⟩
  · refine hd.withScripts (fun b hb => ?_) fun b hb => ?_
    · cases hb
    obtain rfl := Option.some.inj hb
    refine ⟨hprint.asSetup.withCode htag hcode, htag, ?_⟩
    simp [Block.isSetup, Entries.has, Entries.get?]

/-! ## The rewritten file -/

/-- Only the script blocks are other ones. -/
theorem exists_placeRecomposed {d : Descriptor} {r : Recomposed} {setup : Bool} (block : Block)
    (hmode : setup = false → d.scriptSetup = none)
    (hstays : d.scriptSetup = none → r.leftover = none) :
    ∃ script scriptSetup, placeRecomposed d block r setup = { d with script, scriptSetup } ∧
      scriptSetup.map Block.content = (if setup then some (blockContent r.code) else none) ∧
      script.map Block.content
        = if setup then r.leftover.map blockContent else some (blockContent r.code) := by
  cases setup with
  | false => exact ⟨_, _, rfl, by simp [hmode rfl], rfl⟩
  | true =>
      cases hd : d.scriptSetup with
      | none =>
          let asSetup := ("setup", none) :: block.attrs.erase "setup"
          refine ⟨none, some { block with content := blockContent r.code, attrs := asSetup }, ?_,
            rfl, by simp [hstays hd]⟩
          simp [placeRecomposed, hd, asSetup]
      | some old =>
          refine ⟨r.leftover.map fun code => { block with content := blockContent code },
            some { old with content := blockContent r.code }, ?_, rfl, ?_⟩
          · simp [placeRecomposed, hd]
          · simp [Function.comp_def]

/-- What is read from a file that is written around recomposed code: no faults, the
blocks of `d` where they are no scripts, and scripts that hold the code. -/
structure Scan.Keeps (s : Scan) (d : Descriptor) (r : Recomposed) (setup : Bool) : Prop where
  errors : s.errors = []
  template : s.descriptor.template.map Block.unplaced = d.template.map Block.unplaced
  styles : s.descriptor.styles.map Block.unplaced = d.styles.map Block.unplaced
  customBlocks : s.descriptor.customBlocks.map Block.unplaced = d.customBlocks.map Block.unplaced
  scriptSetup : s.descriptor.scriptSetup.map Block.content
    = if setup then some (blockContent r.code) else none
  script : s.descriptor.script.map Block.content
    = if setup then r.leftover.map blockContent else some (blockContent r.code)

theorem map_content_map_unplaced (b : Option Block) :
    (b.map Block.unplaced).map Block.content = b.map Block.content := by
  cases b <;> rfl

/-- A file around code without closing tags is read as it was written. -/
theorem keeps_of_noCloseTag {d : Descriptor} {block : Block} {r : Recomposed} {setup : Bool}
    (hd : d.Printable) (hblock : d.script = some block)
    (hmode : setup = false → d.scriptSetup = none)
    (hstays : d.scriptSetup = none → r.leftover = none)
    (hcode : NoCloseTag "script".toList r.code.toList)
    (hleftover : ∀ code ∈ r.leftover, NoCloseTag "script".toList code.toList) :
    (scan (placeRecomposed d block r setup).render).Keeps d r setup := by
  have hprint := printable_placeRecomposed setup hd hblock hcode hleftover
  obtain ⟨script, scriptSetup, heq, hsetup, hscript⟩ :=
    exists_placeRecomposed block hmode hstays
  have hscan := unplaced_scan_render hprint
  rw [heq] at hscan ⊢
  have hdescriptor := congrArg Scan.descriptor hscan
  constructor
  case errors => exact List.map_eq_nil_iff.mp (congrArg Scan.errors hscan)
  case template => exact congrArg Descriptor.template hdescriptor
  case styles => exact congrArg Descriptor.styles hdescriptor
  case customBlocks => exact congrArg Descriptor.customBlocks hdescriptor
  case scriptSetup =>
    rw [← hsetup, ← map_content_map_unplaced, ← map_content_map_unplaced scriptSetup]
    exact congrArg (·.scriptSetup.map Block.content) hdescriptor
  case script =>
    rw [← hscript, ← map_content_map_unplaced, ← map_content_map_unplaced script]
    exact congrArg (·.script.map Block.content) hdescriptor

/-- No script block of a file holds a closing tag. -/
theorem noCloseTag_of_mem_blocks {source : String} {b : Block}
    (hb : b ∈ (scan source).descriptor.blocks) (htag : b.tag = "script") :
    NoCloseTag "script".toList b.content.toList := by
  have hstands := standsIn_of_mem_blocksRead ((slotted_scan source).2 b hb)
  rw [← htag]
  refine hstands.uncut ?_
  rw [htag]
  decide

/-- Code that is read from a file holds no closing tag. -/
theorem noCloseTag_of_keeps {source : String} {d : Descriptor} {r : Recomposed} {setup : Bool}
    (h : (scan source).Keeps d r setup) (hstays : setup = false → r.leftover = none) :
    NoCloseTag "script".toList r.code.toList ∧
      ∀ code ∈ r.leftover, NoCloseTag "script".toList code.toList := by
  obtain ⟨hslots, -⟩ := slotted_scan source
  have hcode : ∀ code, (scan source).descriptor.scriptSetup.map Block.content
      = some (blockContent code) ∨ (scan source).descriptor.script.map Block.content
        = some (blockContent code) → NoCloseTag "script".toList code.toList := by
    intro code hread
    rw [← noCloseTag_blockContent]
    rcases hread with hread | hread
    · obtain ⟨b, hb, hcontent⟩ := Option.map_eq_some_iff.mp hread
      rw [← hcontent]
      have hmem : b ∈ (scan source).descriptor.blocks := by simp [Descriptor.blocks, hb]
      exact noCloseTag_of_mem_blocks hmem (hslots.scriptSetup b hb).1
    · obtain ⟨b, hb, hcontent⟩ := Option.map_eq_some_iff.mp hread
      rw [← hcontent]
      have hmem : b ∈ (scan source).descriptor.blocks := by simp [Descriptor.blocks, hb]
      exact noCloseTag_of_mem_blocks hmem (hslots.script b hb).1
  have hsetup := h.scriptSetup
  have hscript := h.script
  cases setup with
  | false =>
      rw [hstays rfl]
      exact ⟨hcode _ (.inr hscript), fun code hmem => absurd hmem (Option.not_mem_none code)⟩
  | true =>
      refine ⟨hcode _ (.inl hsetup), fun code hmem => hcode _ (.inr ?_)⟩
      rw [hscript, Option.mem_def.mp hmem]
      rfl

/-- A file whose component is recomposed keeps its template, styles and custom blocks
and holds the code in its scripts, exactly if no closing tag of scripts stands in the
code. -/
theorem transformFile_keepsBlocks [Script.Reader] (source : String) (options : Options)
    (r : Recomposed) (hquotes : ∀ b ∈ (scan source).descriptor.blocks, b.QuoteFree)
    (hr : recomposedFile source options = .ok (some r)) :
    ∃ output, transformFile source options = .ok output ∧
      ((scan output).Keeps (scan source).descriptor r options.settings.scriptSetup ↔
        NoCloseTag "script".toList r.code.toList ∧
          ∀ code ∈ r.leftover, NoCloseTag "script".toList code.toList) := by
  obtain ⟨block, hblock, hmode, hstays⟩ := exists_of_recomposedFile hr
  refine ⟨fileWith source options.settings.scriptSetup (some r), ?_, ?_⟩
  · rw [transformFile_eq_map, hr]
    rfl
  · simp only [fileWith, hblock]
    exact ⟨fun hkeeps => noCloseTag_of_keeps hkeeps fun hplain => hstays (hmode hplain),
      fun ⟨hcode, hleftover⟩ =>
        keeps_of_noCloseTag (printable_scan hquotes) hblock hmode hstays hcode hleftover⟩

deriving instance DecidableEq for Recomposed

theorem transformFile_keepsBlocks_emits :
    let source := "<script>export default \x7bemits: []\x7d</script>"
      ++ "<style scoped>p \x7b\x7d</style>"
    let r : Recomposed := ⟨"const emit = defineEmits([])", none⟩
    (∀ b ∈ (scan source).descriptor.blocks, b.QuoteFree) ∧
      recomposedFile source {} = .ok (some r) ∧
        ∃ output, transformFile source {} = .ok output ∧
          (scan output).Keeps (scan source).descriptor r true := by
  intro source r
  have hquotes : ∀ b ∈ (scan source).descriptor.blocks, b.QuoteFree := by decide +kernel
  have hr : recomposedFile source {} = .ok (some r) := by decide +kernel
  have hcode : NoCloseTag "script".toList r.code.toList := by decide +kernel
  obtain ⟨output, houtput, hkeeps⟩ := transformFile_keepsBlocks source {} r hquotes hr
  exact ⟨hquotes, hr, output, houtput, hkeeps.mpr ⟨hcode, nofun⟩⟩

/-- The key of a provided value is quoted again without the escape that it had. It
closes the script now, and the code behind it is lost. -/
theorem transformFile_cuts_escapedKey :
    let source := "<script>import \x7bprovide\x7d from 'vue'\nexport default \x7bprovide: \x7b"
      ++ "'<\\/script>': 1\x7d\x7d</script>"
    let r : Recomposed := ⟨"import \x7bprovide\x7d from 'vue'\nprovide('</script>', 1)", none⟩
    (∀ b ∈ (scan source).descriptor.blocks, b.QuoteFree) ∧
      recomposedFile source {} = .ok (some r) ∧
        ∃ output, transformFile source {} = .ok output ∧
          (scan output).descriptor.scriptSetup.map Block.content
            = some "\nimport \x7bprovide\x7d from 'vue'\nprovide('" ∧
          ¬ (scan output).Keeps (scan source).descriptor r true := by
  intro source r
  have hr : recomposedFile source {} = .ok (some r) := by decide +kernel
  have hcut : (scan (fileWith source true (some r))).descriptor.scriptSetup.map Block.content
      = some "\nimport \x7bprovide\x7d from 'vue'\nprovide('" := by
    decide +kernel
  refine ⟨by decide +kernel, hr, fileWith source true (some r), ?_, hcut, fun hkeeps => ?_⟩
  · rw [transformFile_eq_map, hr]
    rfl
  · have hcode := hkeeps.scriptSetup
    rw [hcut] at hcode
    exact absurd hcode (by decide)

end Recompose
