import Recompose.Proofs.ComponentFiling
import Recompose.Proofs.ComponentPlaces

/-!
# Nested templates with any attributes

The opening tag of a nested template is not read as tags are read elsewhere: the
scan of a template goes to the next `>` and looks for a slash in front of it. A
quoted value may hold both, and then the tag ends elsewhere than `readOpenTag`
says, or closes itself only for one of the two.

`TemplateMarkup` is content as it is written: text, tags of other elements, and
nested templates whose opening tags are those that `readOpenTag` accepts. Such a
content is the content of its block if both readings of every opening tag come to
the same (`ReadsAlike`); what stands between the first `>` and the end of the tag
is content to the scan, so it does no harm as long as it holds no template tag. On
`<template a="/>">` the two readings differ, and the block ends too early.
-/

namespace Recompose

/-! ## Tags in a content -/

/-- An opening tag of a template, up to its end. -/
def IsTemplateTag (selfClosing : Bool) (tag : List Char) : Prop :=
  ∃ cs attrs, tag = '<' :: cs ∧ readOpenTag cs = .ok (⟨templateTag, attrs, selfClosing⟩, [])

/-- A tag of another element, opening or closing. -/
def IsOtherTag (tag : List Char) : Prop :=
  ∃ slash name rest, tag = '<' :: (slash ++ (name ++ (rest ++ ['>']))) ∧
    (slash = [] ∨ slash = ['/']) ∧ name ≠ [] ∧ (∀ c ∈ name, isTagNameChar c = true) ∧
      HeadNot isTagNameChar rest ∧ sameIgnoringCase name templateTag = false ∧ '<' ∉ rest

/-- Content in which templates nest properly. `IsTag` says which texts are opening
tags of templates, and which of them close themselves. -/
inductive TemplateMarkup (IsTag : Bool → List Char → Prop) : List Char → Prop where
  | nil : TemplateMarkup IsTag []
  | text {cs rest : List Char} (hcs : '<' ∉ cs) (hrest : TemplateMarkup IsTag rest) :
      TemplateMarkup IsTag (cs ++ rest)
  | other {tag rest : List Char} (htag : IsOtherTag tag) (hrest : TemplateMarkup IsTag rest) :
      TemplateMarkup IsTag (tag ++ rest)
  | selfClosed {tag rest : List Char} (htag : IsTag true tag) (hrest : TemplateMarkup IsTag rest) :
      TemplateMarkup IsTag (tag ++ rest)
  | nested {tag inner close rest : List Char} (htag : IsTag false tag)
      (hinner : TemplateMarkup IsTag inner) (hclose : IsCloseTag templateTag close)
      (hrest : TemplateMarkup IsTag rest) :
      TemplateMarkup IsTag (tag ++ (inner ++ (close ++ rest)))

/-- The first `>` of an opening tag tells whether the tag closes itself, and no
template tag stands between that `>` and the end of the tag. -/
def ReadsAlike (selfClosing : Bool) (tag : List Char) : Prop :=
  ∃ head tail, tag = head ++ '>' :: tail ∧ '>' ∉ head ∧
    selfClosing = (head.getLast? == some '/') ∧ BalancedTemplates tail

/-- An opening tag that the scan of a template takes as the reader of tags does. -/
def IsScannedTag (selfClosing : Bool) (tag : List Char) : Prop :=
  IsTemplateTag selfClosing tag ∧ ReadsAlike selfClosing tag

/-! ## Balanced texts -/

/-- Nothing or a text that ends a tag. -/
def EndsTag (cs : List Char) : Prop := cs = [] ∨ cs.getLast? = some '>'

theorem EndsTag.of_append {front rest : List Char} (h : EndsTag (front ++ rest)) :
    EndsTag rest := by
  cases rest with
  | nil => exact .inl rfl
  | cons c rest =>
      right
      rcases h with h | h
      · exact absurd h (by simp)
      · rw [← h, List.getLast?_append_of_ne_nil _ (List.cons_ne_nil c rest)]

/-- A text that ends a tag cannot be the beginning of one that holds no `>`. -/
theorem EndsTag.gt_mem {c : Char} {cs : List Char} (h : EndsTag (c :: cs)) : '>' ∈ c :: cs := by
  rcases h with h | h
  · cases h
  · exact List.mem_of_getLast? h

/-- A tag name that begins in a text which ends a tag lies in it as a whole. -/
theorem exists_of_append_eq {c : Char} {cs rest tail after : List Char} (hend : EndsTag (c :: cs))
    (htail : '>' ∉ tail) (h : c :: cs ++ rest = tail ++ after) :
    ∃ post, c :: cs = tail ++ post ∧ after = post ++ rest := by
  rcases List.append_eq_append_iff.mp h with ⟨mid, hmid, -⟩ | ⟨mid, hmid, hafter⟩
  · exact absurd (hmid ▸ List.mem_append_left _ hend.gt_mem) htail
  · exact ⟨mid, hmid, hafter⟩

theorem gt_not_mem_of_sameIgnoringCase {name : List Char}
    (h : sameIgnoringCase name templateTag = true) : '>' ∉ name :=
  not_mem_of_sameIgnoringCase h (by decide) rfl rfl

/-- What follows a text that ends a tag opens nothing inside of it. -/
theorem not_opensTag_append {c : Char} {cs rest : List Char} (hend : EndsTag (c :: cs))
    (h : ¬ OpensTag templateTag (c :: cs)) : ¬ OpensTag templateTag (c :: cs ++ rest) := by
  rintro ⟨name, after, happ, hname, hafter⟩
  have hgt : '>' ∉ '<' :: name := by
    simp [gt_not_mem_of_sameIgnoringCase hname]
  have happ' : c :: cs ++ rest = '<' :: name ++ after := happ
  obtain ⟨post, hsplit, rfl⟩ := exists_of_append_eq hend hgt happ'
  refine h ⟨name, post, hsplit, hname, ?_⟩
  cases post with
  | nil => exact fun d hd => nomatch hd
  | cons d post => exact hafter

/-- What follows a text that ends a tag closes nothing inside of it. -/
theorem not_isCloseTag_append {c : Char} {cs rest : List Char} (hend : EndsTag (c :: cs))
    (h : ∀ close post, c :: cs = close ++ post → ¬ IsCloseTag templateTag close) :
    ∀ close post, c :: cs ++ rest = close ++ post → ¬ IsCloseTag templateTag close := by
  rintro close post happ hclose
  obtain ⟨name, blanks, rfl, hname, hblanks⟩ := id hclose
  have hblank : '>' ∉ blanks := fun hmem => isMarkupBlank_ne (hblanks _ hmem) (by decide) rfl
  have hgt : '>' ∉ '<' :: '/' :: (name ++ blanks) := by
    simp [gt_not_mem_of_sameIgnoringCase hname, hblank]
  have happ' : c :: cs ++ rest = '<' :: '/' :: (name ++ blanks) ++ '>' :: post := by
    simpa using happ
  obtain ⟨mid, hsplit, hmid⟩ := exists_of_append_eq hend hgt happ'
  -- The text goes on behind the name and the blanks, so its next character is the `>`.
  cases mid with
  | nil =>
      rw [List.append_nil] at hsplit
      exact hgt (hsplit ▸ hend.gt_mem)
  | cons d mid =>
      obtain ⟨rfl, -⟩ := List.cons.inj hmid
      exact h _ mid (by simpa using hsplit) hclose

/-- Balanced text can stand behind balanced text that ends a tag. -/
theorem BalancedTemplates.append {front rest : List Char} (hfront : BalancedTemplates front)
    (hend : EndsTag front) (hrest : BalancedTemplates rest) :
    BalancedTemplates (front ++ rest) := by
  induction hfront with
  | nil => exact hrest
  | @text c cs hopen hclose _ ih =>
      exact .text (not_opensTag_append hend hopen) (not_isCloseTag_append hend hclose)
        (ih (show EndsTag ([c] ++ cs) from hend).of_append)
  | selfClosed htag _ ih =>
      rw [List.append_assoc]
      exact .selfClosed htag (ih hend.of_append)
  | @nested tag inner close behind htag hinner hclose _ _ ih =>
      have hsplit : tag ++ (inner ++ (close ++ behind)) ++ rest
          = tag ++ (inner ++ (close ++ (behind ++ rest))) := by simp
      rw [hsplit]
      exact .nested htag hinner hclose (ih hend.of_append.of_append.of_append)

/-! ## Tags of other elements -/

/-- Where the name of another element stands, no template tag begins. -/
theorem readTagName?_otherName {name after : List Char}
    (hname : ∀ c ∈ name, isTagNameChar c = true) (hafter : HeadNot isTagNameChar after)
    (hother : sameIgnoringCase name templateTag = false) :
    readTagName? templateTag (name ++ after) = none := by
  rw [Option.eq_none_iff_forall_ne_some]
  intro rest hread
  obtain ⟨tname, happ, hsame, hrest⟩ := readTagName?_eq_some_iff.mp hread
  -- Both names go up to the first character that cannot stand in a name.
  have hchars : ∀ c ∈ tname, isTagNameChar c = true := by
    intro c hc
    have hletter : c.toLower.isAlpha = true := by
      have hmem : c.toLower ∈ templateTag.map Char.toLower :=
        sameIgnoringCase_iff.mp hsame ▸ List.mem_map_of_mem hc
      exact List.all_eq_true.mp (by decide : (templateTag.map Char.toLower).all Char.isAlpha) _ hmem
    rw [Char.isAlpha_toLower_eq_isAlpha] at hletter
    simp [isTagNameChar, Char.isAlphanum, hletter]
  have hboth := congrArg (List.takeWhile isTagNameChar) happ
  rw [takeWhile_append_headNot hname hafter, takeWhile_append_headNot hchars hrest] at hboth
  rw [hboth, hsame] at hother
  cases hother

/-- A tag of another element can stand in front of balanced text. -/
theorem IsOtherTag.balanced {tag rest : List Char} (htag : IsOtherTag tag)
    (hrest : BalancedTemplates rest) : BalancedTemplates (tag ++ rest) := by
  obtain ⟨slash, name, attrs, rfl, hslash, hne, hname, hhead, hother, hlt⟩ := htag
  have hafter : HeadNot isTagNameChar (attrs ++ '>' :: rest) := by
    cases attrs with
    | nil => exact headNot_cons.mpr (by decide)
    | cons a attrs => exact hhead
  have hnone := readTagName?_otherName hname hafter hother
  have hlt' : '<' ∉ slash ++ (name ++ (attrs ++ ['>'])) := by
    have hltName : '<' ∉ name := fun hmem => absurd (hname _ hmem) (by decide)
    rcases hslash with rfl | rfl <;> simp [hltName, hlt]
  have hsplit : slash ++ (name ++ (attrs ++ ['>'])) ++ rest
      = slash ++ (name ++ (attrs ++ '>' :: rest)) := by simp
  rw [List.cons_append]
  refine .text ?_ ?_ (.plain hlt' hrest)
  · rw [hsplit, opensTag_iff, Option.isSome_iff_ne_none, not_not]
    rcases hslash with rfl | rfl
    · exact hnone
    · show readTagName? templateTag ([] ++ _) = none
      exact readTagName?_otherName nofun (headNot_cons.mpr (by decide)) (by decide)
  · rw [hsplit, ← readCloseTag?_eq_none_iff]
    rcases hslash with rfl | rfl
    · obtain ⟨c, name, rfl⟩ := List.exists_cons_of_ne_nil hne
      have hc : c ≠ '/' := by
        rintro rfl
        exact absurd (hname _ (List.mem_cons_self ..)) (by decide)
      unfold readCloseTag?
      split
      · rename_i heq
        exact absurd (List.cons.inj (List.cons.inj heq).2).1 hc
      · rfl
    · simp [readCloseTag?, hnone]

/-! ## Tags of nested templates -/

/-- An opening tag that both readings take alike is one to the scan, up to its first
`>`, with balanced text behind it. -/
theorem IsScannedTag.exists_opening {selfClosing : Bool} {tag : List Char}
    (h : IsScannedTag selfClosing tag) :
    ∃ opening tail, tag = opening ++ tail ∧ IsOpenTag templateTag selfClosing opening ∧
      BalancedTemplates tail ∧ EndsTag tail := by
  obtain ⟨⟨cs, entries, rfl, hread⟩, head, tail, heq, hgt, hself, htail⟩ := h
  obtain ⟨name, attrs, hcs, hname, hhead⟩ := exists_of_readOpenTag hread
  dsimp only at hcs hname hhead
  rw [List.append_nil] at hcs hhead
  have hends : EndsTag (head ++ '>' :: tail) := by
    right
    rw [← heq, hcs]
    cases selfClosing <;> simp [openTagEnd, List.getLast?_cons, List.getLast?_append]
  -- The name holds no `>`, so the first one stands behind it.
  obtain ⟨behind, rfl, hbehind⟩ : ∃ behind, head = '<' :: name ++ behind ∧
      attrs ++ openTagEnd selfClosing = behind ++ '>' :: tail := by
    have happ : '<' :: name ++ (attrs ++ openTagEnd selfClosing) = head ++ '>' :: tail := by
      rw [← heq, hcs]
      rfl
    rcases List.append_eq_append_iff.mp happ with ⟨mid, hmid, hrest⟩ | ⟨mid, hmid, hrest⟩
    · exact ⟨mid, hmid, hrest⟩
    · cases mid with
      | nil => exact ⟨[], by simpa using hmid.symm, by simpa using hrest.symm⟩
      | cons d mid =>
          obtain ⟨rfl, -⟩ := List.cons.inj hrest
          have hmem : '>' ∈ '<' :: name :=
            hmid ▸ List.mem_append_right _ (List.mem_cons_self ..)
          exact absurd hmem (by simp [gt_not_mem_of_sameIgnoringCase hname])
  refine ⟨'<' :: (name ++ (behind ++ ['>'])), tail, by rw [heq]; simp, ?_, htail,
    (show EndsTag (['>'] ++ tail) from hends.of_append).of_append⟩
  have hslash : '/' ∉ name := not_mem_of_sameIgnoringCase hname (by decide) rfl rfl
  have hne : name ≠ [] := by
    rintro rfl
    exact absurd (length_of_sameIgnoringCase hname) (by decide)
  refine ⟨name, behind, rfl, hname, ?_, fun hmem => hgt (List.mem_append_right _ hmem), ?_⟩
  · rw [hbehind] at hhead
    cases behind with
    | nil =>
        intro d hd
        cases hd
    | cons d behind => exact hhead
  · rw [hself, List.cons_append, List.getLast?_cons, Bool.eq_iff_iff, beq_iff_eq, beq_iff_eq,
      Option.some.injEq, getLast?_getD_append hne hslash]

/-- Markup is balanced to the scan: what it does not take for a part of an opening tag
is content in front of what follows the tag. -/
theorem TemplateMarkup.balanced {content : List Char} (h : TemplateMarkup IsScannedTag content) :
    BalancedTemplates content := by
  induction h with
  | nil => exact .nil
  | text hcs _ ih => exact .plain hcs ih
  | other htag _ ih => exact htag.balanced ih
  | selfClosed htag _ ih =>
      obtain ⟨opening, tail, rfl, hopen, htail, hend⟩ := htag.exists_opening
      rw [List.append_assoc]
      exact .selfClosed hopen (htail.append hend ih)
  | @nested tag inner close rest htag _ hclose _ ihInner ihRest =>
      obtain ⟨opening, tail, rfl, hopen, htail, hend⟩ := htag.exists_opening
      have hsplit : opening ++ tail ++ (inner ++ (close ++ rest))
          = opening ++ ((tail ++ inner) ++ (close ++ rest)) := by simp
      rw [hsplit]
      exact .nested hopen (htail.append hend ihInner) hclose ihRest

/-! ## The block -/

/-- A template and nothing else. -/
def templateSource (content : List Char) : String :=
  "<template>" ++ String.ofList content ++ "</template>"

/-- The block of a source that is a template and nothing else. -/
def templateBlock (content : List Char) : Block where
  tag := "template"
  content := String.ofList content
  span := ⟨0, 10 + byteSize content + 11⟩
  contentSpan := ⟨10, 10 + byteSize content⟩

theorem isContent_templateBlock {content : List Char} :
    IsContent (templateBlock content).tag (templateBlock content).content
      ↔ BalancedTemplates content := by
  rw [IsContent, templateBlock, if_pos rfl, String.toList_ofList]

theorem isBlockTag_template : IsBlockTag "template" :=
  ⟨⟨_, _, rfl, by decide⟩, List.all_eq_true.mp (by decide), by decide⟩

theorem printable_templateBlock {content : List Char} (h : BalancedTemplates content) :
    (templateBlock content).Printable where
  tag := isBlockTag_template
  attrs := nofun
  names := .nil
  content := isContent_templateBlock.mpr h

/-- A template is read with exactly the content that was written if and only if its
template tags match up for the scan. -/
theorem scan_templateSource_iff (content : List Char) :
    scan (templateSource content) = ⟨{ template := some (templateBlock content) }, []⟩
      ↔ BalancedTemplates content := by
  constructor
  · intro hscan
    have hblocks : (scan (templateSource content)).descriptor.blocks = [templateBlock content] := by
      rw [hscan]
      rfl
    have hprintable : (scan (templateSource content)).descriptor.Printable :=
      printable_scan fun b hb => by
        rw [hblocks, List.mem_singleton] at hb
        exact hb ▸ nofun
    exact isContent_templateBlock.mp
      (hprintable.blocks _ (hblocks ▸ List.mem_singleton_self _)).content
  · intro h
    have hsource : (templateSource content).toList = (templateBlock content).render.toList := by
      simp [templateSource, Block.toList_render, templateBlock, attrsChars, closeTagChars]
    have hopening : byteSize "<template>".toList = 10 := by decide
    have hclosing : byteSize (closeTagChars "template") = 11 := by decide
    have hsize : byteSize (templateSource content).toList = 10 + byteSize content + 11 := by
      have hparts : (templateSource content).toList
          = "<template>".toList ++ (content ++ closeTagChars "template") := by
        simp [templateSource, closeTagChars]
      rw [hparts, byteSize_append, byteSize_append, hopening, hclosing, Nat.add_assoc]
    have hread := readBlocks_render (printable_templateBlock h)
      (byteSize (templateSource content).toList) []
    have hplaced : (templateBlock content).placed (byteSize (templateSource content).toList) []
        = templateBlock content := by
      have hrest : 10 + byteSize content + 11 - (byteSize content + 11) = 10 := by omega
      rw [Block.placed, List.append_nil, List.append_nil, ← hsource, hsize]
      simp [templateBlock, hclosing, hrest]
    rw [hplaced, List.append_nil, ← hsource] at hread
    unfold scan
    dsimp only
    rw [hread]
    simp [readBlocks, Scan.file, templateBlock]

/-- Nested templates are matched whatever their attributes hold, if every opening tag
reads alike for the scan of the template and for the reader of tags. -/
theorem scan_nestedTemplates {content : List Char} (h : TemplateMarkup IsScannedTag content) :
    scan (templateSource content) = ⟨{ template := some (templateBlock content) }, []⟩ :=
  (scan_templateSource_iff content).mpr h.balanced

/-- Opening tags as they are printed are read up to their ends. -/
theorem isTemplateTag_attrsChars (attrs : Entries (Option String))
    (h : ∀ attr ∈ attrs, IsAttr attr) (hnames : attrs.names.Nodup) :
    IsTemplateTag false ('<' :: (templateTag ++ (attrsChars attrs ++ ['>']))) := by
  have hprintable : Block.Printable { tag := "template", attrs, content := "" } :=
    ⟨isBlockTag_template, h, hnames, (@isContent_templateBlock []).mpr .nil⟩
  exact ⟨_, attrs, rfl, readOpenTag_append hprintable []⟩

/-- Markup with tags of other elements, a value that holds a `>`, and a closing tag in
another case. -/
def quotedMarkup : List Char := "a<b c='/'>d</b><template v-if=\"e > f\">g</Template >".toList

/-- A `>` in a quoted value does no harm, nor do tags of other elements. -/
theorem scan_nestedTemplates_quotedMarkup :
    TemplateMarkup IsScannedTag quotedMarkup ∧
      scan (templateSource quotedMarkup)
        = ⟨{ template := some (templateBlock quotedMarkup) }, []⟩ := by
  have hopening : IsOtherTag "<b c='/'>".toList :=
    ⟨[], ['b'], " c='/'".toList, by decide, .inl rfl, by decide,
      List.all_eq_true.mp (by decide), headNot_cons.mpr (by decide), by decide, by decide⟩
  have hclosing : IsOtherTag "</b>".toList :=
    ⟨['/'], ['b'], [], by decide, .inr rfl, by decide, List.all_eq_true.mp (by decide), nofun,
      by decide, by decide⟩
  have htag : IsScannedTag false "<template v-if=\"e > f\">".toList := by
    refine ⟨isTemplateTag_attrsChars [("v-if", some "e > f")] (by decide) (by decide), ?_⟩
    exact ⟨"<template v-if=\"e ".toList, " f\">".toList ++ [], by decide, by decide, by decide,
      .plain (by decide) .nil⟩
  have hclose : IsCloseTag templateTag "</Template >".toList :=
    ⟨"Template".toList, [' '], by decide, by decide, List.all_eq_true.mp (by decide)⟩
  have hsplit : quotedMarkup
      = "a".toList ++ ("<b c='/'>".toList ++ ("d".toList ++ ("</b>".toList
        ++ ("<template v-if=\"e > f\">".toList ++ (("g".toList ++ [])
          ++ ("</Template >".toList ++ [])))))) := by decide
  have hmarkup : TemplateMarkup IsScannedTag quotedMarkup := by
    rw [hsplit]
    exact .text (by decide) (.other hopening (.text (by decide) (.other hclosing
      (.nested htag (.text (by decide) .nil) hclose .nil))))
  exact ⟨hmarkup, scan_nestedTemplates hmarkup⟩

/-- A slash in front of a `>` in a quoted value does: the scan takes the nested
template to close itself there, and its closing tag to close the block. -/
theorem scan_nestedTemplates_slashInValue :
    TemplateMarkup IsTemplateTag "<template a=\"/>\"></template>".toList ∧
      (scan (templateSource "<template a=\"/>\"></template>".toList)).descriptor.template.map
        Block.content = some "<template a=\"/>\">" := by
  have htag : IsTemplateTag false "<template a=\"/>\">".toList :=
    isTemplateTag_attrsChars [("a", some "/>")] (by decide) (by decide)
  have hclose : IsCloseTag templateTag "</template>".toList := isCloseTag_closeTagChars "template"
  refine ⟨?_, by decide +kernel⟩
  have hsplit : "<template a=\"/>\"></template>".toList
      = "<template a=\"/>\">".toList ++ ([] ++ ("</template>".toList ++ [])) := by decide
  rw [hsplit]
  exact .nested htag .nil hclose .nil

end Recompose
