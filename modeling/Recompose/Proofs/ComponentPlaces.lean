import Recompose.Proofs.Boundary
import Recompose.Proofs.ComponentReading

/-!
# Where blocks stand

Every reader leaves an end of the text it was given, so a block is a piece of the
file: an opening tag, a content and a closing tag, one behind the other. From that
all facts about its spans follow (`Block.StandsIn`). The blocks of a file stand
behind each other because each is read from what the one before left.
-/

namespace Recompose

/-! ## Opening tags -/

theorem suffix_splitBefore? {stop : Char} {cs taken rest : List Char}
    (h : splitBefore? stop cs = some (taken, rest)) : rest <:+ cs := by
  induction cs generalizing taken with
  | nil => cases h
  | cons c cs ih =>
      rw [splitBefore?] at h
      split at h
      · obtain ⟨-, rfl⟩ := Prod.mk.inj (Option.some.inj h)
        exact List.suffix_cons ..
      · obtain ⟨⟨taken, rest⟩, hsplit, heq⟩ := Option.map_eq_some_iff.mp h
        obtain ⟨-, rfl⟩ := Prod.mk.inj heq
        exact (ih hsplit).trans (List.suffix_cons ..)

theorem suffix_readAttrValue? {cs value rest : List Char}
    (h : readAttrValue? cs = some (value, rest)) : rest <:+ cs := by
  have hblank := List.dropWhile_suffix (l := cs) isInlineBlank
  unfold readAttrValue? at h
  split at h
  · rename_i heq
    exact (suffix_splitBefore? h).trans ((List.suffix_cons ..).trans (heq ▸ hblank))
  · rename_i heq
    exact (suffix_splitBefore? h).trans ((List.suffix_cons ..).trans (heq ▸ hblank))
  · obtain ⟨-, rfl⟩ := Prod.mk.inj (Option.some.inj h)
    exact (List.dropWhile_suffix _).trans hblank

theorem suffix_readAttr? {cs rest : List Char} {attr : List Char × Option (List Char)}
    (h : readAttr? cs = some (attr, rest)) : rest <:+ cs := by
  have hname := List.dropWhile_suffix (l := cs) (!isAttrNameEnd ·)
  unfold readAttr? at h
  dsimp only at h
  split at h
  · rename_i after heq
    obtain ⟨⟨value, rest⟩, hvalue, hattr⟩ := Option.map_eq_some_iff.mp h
    obtain ⟨-, rfl⟩ := Prod.mk.inj hattr
    have hblank := List.dropWhile_suffix (l := cs.dropWhile (!isAttrNameEnd ·)) isInlineBlank
    rw [heq] at hblank
    exact (suffix_readAttrValue? hvalue).trans
      ((List.suffix_cons ..).trans (hblank.trans hname))
  · obtain ⟨-, rfl⟩ := Prod.mk.inj (Option.some.inj h)
    exact hname

/-- How an opening tag ends. -/
def openTagEnd (selfClosing : Bool) : List Char :=
  if selfClosing then ['/', '>'] else ['>']

/-- The end of an opening tag stands in front of what is left. -/
theorem suffix_readAttrs? {attrs attrs' : Entries (Option String)} {selfClosing : Bool}
    {cs rest : List Char} (h : readAttrs? attrs cs = some (attrs', selfClosing, rest)) :
    openTagEnd selfClosing ++ rest <:+ cs := by
  fun_induction readAttrs? attrs cs with
  | case1 => cases h
  | case2 attrs cs rest heq | case3 attrs cs rest heq =>
      obtain ⟨-, hend⟩ := Prod.mk.inj (Option.some.inj h)
      obtain ⟨rfl, rfl⟩ := Prod.mk.inj hend
      have hblank := List.dropWhile_suffix (l := cs) isMarkupBlank
      rwa [heq] at hblank
  | case4 attrs cs c rest _ _ heq _ _ ih =>
      have hblank : c :: rest <:+ cs := heq ▸ List.dropWhile_suffix _
      exact (ih h).trans ((List.suffix_cons ..).trans hblank)
  | case5 => cases h
  | case6 attrs cs c rest _ _ heq _ _ name value after hattr _ ih =>
      have hblank : c :: rest <:+ cs := heq ▸ List.dropWhile_suffix _
      exact (ih h).trans ((suffix_readAttr? hattr).trans hblank)

theorem headNot_dropWhile (p : Char → Bool) (cs : List Char) : HeadNot p (cs.dropWhile p) := by
  intro c hc
  have hhead := List.head?_dropWhile_not p cs
  rwa [Option.mem_def.mp hc] at hhead

theorem sameIgnoringCase_canonicalTag (raw : List Char) :
    sameIgnoringCase raw (canonicalTag raw) = true := by
  rw [sameIgnoringCase_iff]
  unfold canonicalTag
  split
  · rw [map_toLower_map_toLower]
  · rfl

/-- An opening tag begins with its name and ends where it is left. -/
theorem exists_of_readOpenTag {cs inner : List Char} {tag : OpenTag}
    (h : readOpenTag cs = .ok (tag, inner)) :
    ∃ name attrs, cs = name ++ (attrs ++ (openTagEnd tag.selfClosing ++ inner)) ∧
      sameIgnoringCase name tag.tag = true ∧
        HeadNot isTagNameChar (attrs ++ (openTagEnd tag.selfClosing ++ inner)) := by
  unfold readOpenTag at h
  dsimp only at h
  split at h
  · rename_i attrs selfClosing rest hattrs
    obtain ⟨rfl, rfl⟩ := Prod.mk.inj (Except.ok.inj h)
    obtain ⟨text, htext⟩ := suffix_readAttrs? hattrs
    refine ⟨cs.takeWhile isTagNameChar, text, ?_, sameIgnoringCase_canonicalTag _, ?_⟩
    · rw [htext, List.takeWhile_append_dropWhile]
    · rw [htext]
      exact headNot_dropWhile _ _
  · cases h

/-! ## Blocks -/

/-- What is said of a block about the file that it was read from. -/
structure Block.StandsIn (source : String) (b : Block) : Prop where
  /-- The span is in range and cuts no character. -/
  slice : b.span.IsSlice source.toList
  nonempty : b.span.start < b.span.stop
  /-- The span starts at a `<`, which the name of the tag follows. -/
  opens : ∃ name rest, Rest source.toList b.span.start ('<' :: (name ++ rest)) ∧
    sameIgnoringCase name b.tag.toList = true ∧ HeadNot isTagNameChar rest
  inside : b.span.start ≤ b.contentSpan.start ∧ b.contentSpan.start ≤ b.contentSpan.stop ∧
    b.contentSpan.stop ≤ b.span.stop
  /-- The content is the text under its span. -/
  content : b.contentSpan.slice? source = some b.content
  /-- A raw content ends at the first closing tag. -/
  uncut : b.tag ≠ "template" → NoCloseTag b.tag.toList b.content.toList
  /-- A closing tag follows the content, up to the end of the block. An element that
  closes itself has no content, and nothing follows. -/
  closes : ∃ opening closing,
    (⟨b.span.start, b.contentSpan.start⟩ : Span).chars? source.toList = some opening ∧
    (⟨b.contentSpan.stop, b.span.stop⟩ : Span).chars? source.toList = some closing ∧
      (IsCloseTag b.tag.toList closing ∨
        ['/', '>'] <:+ opening ∧ b.content = "" ∧ closing = [])

/-- The text of an element: its opening tag, its content, its closing tag and what
follows. -/
structure ElementText (tag : OpenTag) (cs inner content closing rest : List Char) : Prop where
  opens : ∃ name attrs, cs = name ++ (attrs ++ (openTagEnd tag.selfClosing ++ inner)) ∧
    sameIgnoringCase name tag.tag = true ∧
      HeadNot isTagNameChar (attrs ++ (openTagEnd tag.selfClosing ++ inner))
  split : inner = content ++ (closing ++ rest)
  isContent : IsContent (String.ofList tag.tag) (String.ofList content)
  closes : IsCloseTag tag.tag closing ∨ tag.selfClosing = true ∧ content = [] ∧ closing = []

theorem exists_of_readBlock {size : Nat} {cs rest : List Char} {b : Block}
    (h : readBlock size cs = .ok (b, rest)) :
    ∃ tag inner content closing, ElementText tag cs inner content closing rest ∧
      b = tag.block size cs inner content rest := by
  rw [readBlock_eq] at h
  split at h
  · cases h
  rename_i tag inner hopen
  split at h
  · cases h
  rename_i content after hread
  obtain ⟨rfl, rfl⟩ := Prod.mk.inj (Except.ok.inj h)
  have hopens := exists_of_readOpenTag hopen
  obtain ⟨hcontent, ⟨hself, rfl, rfl⟩ | ⟨-, closing, hinner, hclose⟩⟩ := readContent?_eq_some hread
  · exact ⟨tag, inner, [], [], ⟨hopens, rfl, hcontent, .inr ⟨hself, rfl, rfl⟩⟩, rfl⟩
  · exact ⟨tag, inner, content, closing, ⟨hopens, hinner, hcontent, .inl hclose⟩, rfl⟩

/-- One block: it stands where its reading began, and what is left is what follows
it. -/
theorem standsIn_of_readBlock {source : String} {start : Nat} {cs rest : List Char} {b : Block}
    (hstart : Rest source.toList start ('<' :: cs))
    (h : readBlock (byteSize source.toList) cs = .ok (b, rest)) :
    b.StandsIn source ∧ b.span.start = start ∧ Rest source.toList b.span.stop rest := by
  obtain ⟨tag, inner, content, closing, ⟨⟨name, attrs, rfl, hname, hhead⟩, rfl, hcontent, hcloses⟩,
    rfl⟩ := exists_of_readBlock h
  -- The three parts of the block, each where the one before ends.
  obtain ⟨opening, hopening⟩ : ∃ opening,
      opening = '<' :: (name ++ (attrs ++ openTagEnd tag.selfClosing)) := ⟨_, rfl⟩
  have hopens : Rest source.toList start (opening ++ (content ++ (closing ++ rest))) := by
    simpa [hopening] using hstart
  have hinner := hopens.append
  have hafter := hinner.append
  have hrest := hafter.append
  have hpos : 0 < byteSize opening := by
    rw [hopening, byteSize_cons]
    exact Nat.lt_of_lt_of_le (Char.utf8Size_pos _) (Nat.le_add_right ..)
  have hsizeStart := hstart.byteSize_eq
  have hsizeInner := hinner.byteSize_eq
  have hsizeRest := hrest.byteSize_eq
  have hlt : '<'.utf8Size = 1 := by decide
  rw [byteSize_cons, hlt] at hsizeStart
  generalize hb : tag.block (byteSize source.toList)
    (name ++ (attrs ++ (openTagEnd tag.selfClosing ++ (content ++ (closing ++ rest)))))
    (content ++ (closing ++ rest)) content rest = b
  have htag : b.tag = String.ofList tag.tag := hb ▸ rfl
  have htext : b.content = String.ofList content := hb ▸ rfl
  have hspan : b.span
      = ⟨start, start + byteSize opening + byteSize content + byteSize closing⟩ := by
    rw [← hb]
    simp only [OpenTag.block, Span.mk.injEq]
    omega
  have hcontentSpan : b.contentSpan
      = ⟨start + byteSize opening, start + byteSize opening + byteSize content⟩ := by
    rw [← hb]
    simp only [OpenTag.block, Span.mk.injEq]
    omega
  have hcontentText := hinner.chars?
  have hclosingText := hafter.chars?
  rw [← hcontentSpan] at hcontentText
  refine ⟨?_, by rw [hspan], by rw [hspan]; exact hrest⟩
  constructor
  case slice =>
    rw [hspan]
    exact .of_boundaries (by dsimp only; omega) ⟨_, hopens⟩ ⟨_, hrest⟩
  case nonempty =>
    rw [hspan]
    dsimp only
    omega
  case opens =>
    rw [htag, String.toList_ofList, hspan]
    exact ⟨name, _, hstart, hname, hhead⟩
  case inside =>
    rw [hspan, hcontentSpan]
    dsimp only
    omega
  case content => rw [Span.slice?, hcontentText, Option.map_some, htext]
  case uncut =>
    intro hne
    rw [htag] at hne
    rw [IsContent, if_neg hne] at hcontent
    rwa [htag, htext]
  case closes =>
    rw [htag, htext, String.toList_ofList, hspan, hcontentSpan]
    refine ⟨opening, closing, hopens.chars?, hclosingText, ?_⟩
    rcases hcloses with hclose | ⟨hself, rfl, rfl⟩
    · exact .inl hclose
    · refine .inr ⟨⟨'<' :: (name ++ attrs), ?_⟩, rfl, rfl⟩
      simp [hopening, hself, openTagEnd]

/-! ## The whole file -/

/-- The blocks that a scan reads between two places stand in the file between these
places, one behind the other. -/
theorem Reaches.standsIn {source : String} {start : Nat} {cs rest : List Char} {bs : List Block}
    (h : Reaches (byteSize source.toList) cs bs rest) (hstart : Rest source.toList start cs) :
    ∃ stop, Rest source.toList stop rest ∧ start ≤ stop ∧
      (∀ b ∈ bs, b.StandsIn source ∧ start ≤ b.span.start ∧ b.span.stop ≤ stop) ∧
        bs.Pairwise fun a b => a.span.stop ≤ b.span.start := by
  induction h generalizing start with
  | here cs => exact ⟨start, hstart, Nat.le_refl _, nofun, .nil⟩
  | text hcomment helement h ih =>
      obtain ⟨stop, hstop, hle, hbs, hpair⟩ := ih hstart.tail
      refine ⟨stop, hstop, by omega, fun b hb => ?_, hpair⟩
      obtain ⟨hb, hfirst, hlast⟩ := hbs b hb
      exact ⟨hb, by omega, hlast⟩
  | comment hbody h ih =>
      obtain ⟨stop, hstop, hle, hbs, hpair⟩ := ih hstart.append.append.append
      refine ⟨stop, hstop, by omega, fun b hb => ?_, hpair⟩
      obtain ⟨hb, hfirst, hlast⟩ := hbs b hb
      exact ⟨hb, by omega, hlast⟩
  | element hbegins hread h ih =>
      obtain ⟨hstands, hfirst, hafter⟩ := standsIn_of_readBlock hstart hread
      obtain ⟨stop, hstop, hle, hbs, hpair⟩ := ih hafter
      have hne := hstands.nonempty
      refine ⟨stop, hstop, by omega, ?_, List.pairwise_cons.mpr ⟨fun b hb => (hbs b hb).2.1, hpair⟩⟩
      rw [List.forall_mem_cons]
      refine ⟨⟨hstands, by omega, hle⟩, fun b hb => ?_⟩
      obtain ⟨hb, hfirst, hlast⟩ := hbs b hb
      exact ⟨hb, by omega, hlast⟩

/-- The fault at the end of a scan spans the rest of the file, from the place where
the scan ended on. -/
theorem Ends.span_eq {source : String} {start : Nat} {rest : List Char} {e : BlockError}
    (h : Ends (byteSize source.toList) rest (some e)) (hstart : Rest source.toList start rest) :
    e.span = ⟨start, byteSize source.toList⟩ := by
  cases h with
  | element _ hread =>
      have hsize := hstart.byteSize_eq
      have hlt : '<'.utf8Size = 1 := by decide
      rw [byteSize_cons, hlt] at hsize
      rw [readBlock_eq] at hread
      split at hread
      · obtain rfl := Except.error.inj hread
        simp only [Span.mk.injEq, and_true]
        omega
      · split at hread
        · obtain rfl := Except.error.inj hread
          simp only [Span.mk.injEq, and_true]
          omega
        · cases hread

theorem standsIn_of_mem_blocksRead {source : String} {b : Block} (hb : b ∈ blocksRead source) :
    b.StandsIn source := by
  obtain ⟨rest, hreaches, -⟩ :=
    readBlocks_eq_iff.mp (Prod.eta (readBlocks (byteSize source.toList) source.toList)).symm
  obtain ⟨stop, -, -, hbs, -⟩ := hreaches.standsIn (Rest.zero source.toList)
  exact (hbs b hb).1

/-- All blocks of a file, those in the descriptor and those reported as standing
again, are where their spans say, and no two of them share a place. An element
without an end is reported from behind the last block up to the end of the file. -/
theorem scan_standsIn (source : String) :
    let bs := blocksRead source
    ((scan source).descriptor.blocks ++ repeatedBlocks bs).Perm bs ∧
    (∀ b ∈ bs, b.StandsIn source) ∧ (bs.Pairwise fun a b => a.span.stop ≤ b.span.start) ∧
    ∃ fault : Option BlockError,
      (scan source).errors = (repeatedBlocks bs).map Block.fault ++ fault.toList ∧
      ∀ e ∈ fault, (∃ tag, e.fault = .unclosed tag ∨ e.fault = .unterminated tag) ∧
        (∀ b ∈ bs, b.span.stop ≤ e.span.start) ∧ e.span.stop = byteSize source.toList ∧
          e.span.IsSlice source.toList := by
  intro bs
  obtain ⟨rest, hreaches, hends⟩ :=
    readBlocks_eq_iff.mp (Prod.eta (readBlocks (byteSize source.toList) source.toList)).symm
  obtain ⟨stop, hstop, -, hbs, hpair⟩ := hreaches.standsIn (Rest.zero source.toList)
  refine ⟨?_, fun b hb => standsIn_of_mem_blocksRead hb, hpair,
    (readBlocks (byteSize source.toList) source.toList).2, ?_, ?_⟩
  · rw [scan_eq]
    exact perm_filedBlocks bs
  · rw [scan_eq]
  · intro e he
    rw [Option.mem_def.mp he] at hends
    have hspan := hends.span_eq hstop
    refine ⟨hends.fault_eq, fun b hb => ?_, by rw [hspan], ?_⟩
    · rw [hspan]
      exact (hbs b hb).2.2
    · rw [hspan]
      exact .of_boundaries hstop.le_size ⟨_, hstop⟩ ⟨_, Rest.size source.toList⟩

end Recompose
