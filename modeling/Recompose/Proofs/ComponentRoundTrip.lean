import Recompose.Component.Printer
import Recompose.Proofs.ComponentTags
import Recompose.Proofs.Entries

/-!
# Writing and reading a component file

A component file that was written by `Descriptor.render` is read back by `scan`
as the descriptor it was written from, apart from the places at which the
blocks stand.

The proof goes from the inside out. `readAttrs?_render` reads the attributes of
an opening tag, `readBlock_render` a whole block in front of any rest, and
`readBlocks_render` all blocks of a file. What is said about each block is
`Block.Printable`, and `Descriptor.Printable` says in addition that the blocks
stand in the slots of their kinds, which is what filing them again needs.
-/

namespace Recompose

/-! ## Attributes -/

/-- The name of an attribute that can be written: it has a character, and none
that ends it. -/
structure IsAttrName (name : String) : Prop where
  ne_nil : name.toList ≠ []
  inside : ∀ c ∈ name.toList, isAttrNameEnd c = false

/-- An attribute that can be written. A value stands between double quotes. -/
structure IsAttr (attr : String × Option String) : Prop where
  name : IsAttrName attr.1
  value : ∀ text ∈ attr.2, '"' ∉ text.toList

instance decidableIsAttrName (name : String) : Decidable (IsAttrName name) :=
  have : Decidable (∀ c ∈ name.toList, isAttrNameEnd c = false) :=
    List.decidableBAll (isAttrNameEnd · = false) name.toList
  decidable_of_iff (name.toList ≠ [] ∧ ∀ c ∈ name.toList, isAttrNameEnd c = false)
    ⟨fun h => ⟨h.1, h.2⟩, fun h => ⟨h.ne_nil, h.inside⟩⟩

instance decidableIsAttr (attr : String × Option String) : Decidable (IsAttr attr) :=
  decidable_of_iff (IsAttrName attr.1 ∧ ∀ text ∈ attr.2, '"' ∉ text.toList)
    ⟨fun h => ⟨h.1, h.2⟩, fun h => ⟨h.name, h.value⟩⟩

theorem splitBefore?_append {stop : Char} {cs rest : List Char} (h : stop ∉ cs) :
    splitBefore? stop (cs ++ stop :: rest) = some (cs, rest) := by
  induction cs with
  | nil => simp [splitBefore?]
  | cons c cs ih =>
      have hc : c ≠ stop := fun hc => h (hc ▸ List.mem_cons_self ..)
      have hcs : stop ∉ cs := fun hmem => h (List.mem_cons_of_mem _ hmem)
      rw [List.cons_append, splitBefore?, if_neg hc, ih hcs]
      rfl

/-- What may stand behind an attribute: the blank in front of the next one, or
the end of the tag. Behind the blank, the next attribute begins with its name. -/
def EndsAttr (cs : List Char) : Prop :=
  (∃ more, cs = '>' :: more) ∨ ∃ c more, cs = ' ' :: c :: more ∧ isAttrNameEnd c = false

theorem EndsAttr.headNot {cs : List Char} (h : EndsAttr cs) : HeadNot (!isAttrNameEnd ·) cs := by
  rcases h with ⟨more, rfl⟩ | ⟨c, more, rfl, -⟩ <;> exact headNot_cons.mpr (by decide)

theorem isInlineBlank_eq_false {c : Char} (h : isAttrNameEnd c = false) :
    isInlineBlank c = false := by
  simp only [isAttrNameEnd, isMarkupBlank, Bool.or_eq_false_iff, decide_eq_false_iff_not] at h
  simp [isInlineBlank, h]

/-- No equals sign follows behind an attribute. -/
theorem EndsAttr.dropWhile_ne {cs : List Char} (h : EndsAttr cs) (after : List Char) :
    cs.dropWhile isInlineBlank ≠ '=' :: after := by
  rcases h with ⟨more, rfl⟩ | ⟨c, more, rfl, hc⟩
  · rw [HeadNot.dropWhile (headNot_cons.mpr (by decide))]
    intro heq
    exact absurd (List.cons.inj heq).1 (by decide)
  · rw [List.dropWhile_cons_of_pos (by decide),
      HeadNot.dropWhile (headNot_cons.mpr (isInlineBlank_eq_false hc))]
    intro heq
    rw [(List.cons.inj heq).1] at hc
    exact absurd hc (by decide)

/-- An attribute without the blank in front of it. -/
def attrChars : String × Option String → List Char
  | (name, none) => name.toList
  | (name, some value) => name.toList ++ ('=' :: '"' :: (value.toList ++ ['"']))

theorem toList_renderAttr (attr : String × Option String) :
    (renderAttr attr).toList = ' ' :: attrChars attr := by
  obtain ⟨name, _ | value⟩ := attr
  · simp [renderAttr, attrChars]
  · simp [renderAttr, attrChars]

theorem IsAttr.attrChars_eq_cons {attr : String × Option String} (h : IsAttr attr) :
    ∃ c more, attrChars attr = c :: more ∧ isAttrNameEnd c = false := by
  obtain ⟨name, value⟩ := attr
  obtain ⟨c, more, hname⟩ := List.exists_cons_of_ne_nil h.name.ne_nil
  have hc : isAttrNameEnd c = false := h.name.inside c (hname ▸ List.mem_cons_self ..)
  cases value with
  | none => exact ⟨c, more, hname, hc⟩
  | some value => exact ⟨c, _, by simp only [attrChars, hname]; rfl, hc⟩

/-- One attribute is read as it was written. -/
theorem readAttr?_append {attr : String × Option String} {cs : List Char} (h : IsAttr attr)
    (hcs : EndsAttr cs) :
    readAttr? (attrChars attr ++ cs) = some ((attr.1.toList, attr.2.map String.toList), cs) := by
  obtain ⟨name, value⟩ := attr
  have hinside : ∀ c ∈ name.toList, (!isAttrNameEnd c) = true := by
    intro c hc
    rw [h.name.inside c hc]
    rfl
  unfold readAttr?
  cases value with
  | none =>
      simp only [attrChars, takeWhile_append_headNot hinside hcs.headNot,
        dropWhile_append_headNot hinside hcs.headNot]
      split
      · rename_i after heq
        exact absurd heq (hcs.dropWhile_ne after)
      · rfl
  | some value =>
      have hhead : HeadNot (!isAttrNameEnd ·) ('=' :: '"' :: (value.toList ++ '"' :: cs)) :=
        headNot_cons.mpr (by decide)
      have hvalue : '"' ∉ value.toList := h.value value rfl
      have hread : readAttrValue? ('"' :: (value.toList ++ '"' :: cs)) = some (value.toList, cs) := by
        unfold readAttrValue?
        rw [HeadNot.dropWhile (headNot_cons.mpr (by decide))]
        exact splitBefore?_append hvalue
      simp only [attrChars, List.append_assoc, List.cons_append, List.nil_append,
        takeWhile_append_headNot hinside hhead, dropWhile_append_headNot hinside hhead]
      rw [HeadNot.dropWhile (headNot_cons.mpr (by decide))]
      simp only [hread, Option.map_some]

theorem readAttrs?_gt (attrs : Entries (Option String)) (rest : List Char) :
    readAttrs? attrs ('>' :: rest) = some (attrs, false, rest) := by
  rw [readAttrs?]
  rfl

/-- An attribute in front of others is put behind those that were read. -/
theorem readAttrs?_attr {attrs : Entries (Option String)} {attr : String × Option String}
    {cs : List Char} (h : IsAttr attr) (hcs : EndsAttr cs) :
    readAttrs? attrs (' ' :: (attrChars attr ++ cs)) = readAttrs? (attrs.put attr.1 attr.2) cs := by
  obtain ⟨c, more, hattr, hc⟩ := h.attrChars_eq_cons
  have hread := readAttr?_append h hcs
  rw [hattr, List.cons_append] at hread ⊢
  have hdrop : (' ' :: c :: (more ++ cs)).dropWhile isMarkupBlank = c :: (more ++ cs) := by
    rw [List.dropWhile_cons_of_pos (by decide)]
    exact HeadNot.dropWhile (headNot_cons.mpr (by simp_all [isAttrNameEnd]))
  have hgt : c ≠ '>' := by
    rintro rfl
    exact absurd hc (by decide)
  have hslash : c ≠ '/' := by
    rintro rfl
    exact absurd hc (by decide)
  rw [readAttrs?]
  split
  · rename_i heq
    rw [hdrop] at heq
    cases heq
  · rename_i heq
    rw [hdrop] at heq
    exact absurd (List.cons.inj heq).1 hgt
  · rename_i heq
    rw [hdrop] at heq
    exact absurd (List.cons.inj heq).1 hslash
  · rename_i heq
    rw [hdrop] at heq
    obtain ⟨rfl, rfl⟩ := List.cons.inj heq
    rw [dif_neg (by rw [hc]; exact Bool.false_ne_true)]
    split
    · rename_i hnone
      rw [hread] at hnone
      cases hnone
    · rename_i name value after hsome
      rw [hread] at hsome
      obtain ⟨hpair, rfl⟩ := Prod.mk.inj (Option.some.inj hsome)
      obtain ⟨rfl, rfl⟩ := Prod.mk.inj hpair
      have hvalue : (attr.2.map String.toList).map String.ofList = attr.2 := by
        cases attr.2 <;> simp
      simp only [String.ofList_toList, hvalue]

/-- The attributes of a tag, each with the blank in front of it. -/
def attrsChars (attrs : Entries (Option String)) : List Char :=
  attrs.flatMap fun attr => ' ' :: attrChars attr

theorem endsAttr_attrsChars {attrs : Entries (Option String)} (h : ∀ attr ∈ attrs, IsAttr attr)
    (rest : List Char) : EndsAttr (attrsChars attrs ++ '>' :: rest) := by
  cases attrs with
  | nil => exact .inl ⟨rest, rfl⟩
  | cons attr attrs =>
      obtain ⟨c, more, hattr, hc⟩ := (h attr (List.mem_cons_self ..)).attrChars_eq_cons
      refine .inr ⟨c, more ++ (attrsChars attrs ++ '>' :: rest), ?_, hc⟩
      simp [attrsChars, hattr]

/-- The attributes of a tag are read as they were written, in their order. -/
theorem readAttrs?_attrsChars {attrs : Entries (Option String)} (h : ∀ attr ∈ attrs, IsAttr attr)
    (rest : List Char) (acc : Entries (Option String)) (hnames : (acc ++ attrs).names.Nodup) :
    readAttrs? acc (attrsChars attrs ++ '>' :: rest) = some (acc ++ attrs, false, rest) := by
  induction attrs generalizing acc with
  | nil => simpa [attrsChars] using readAttrs?_gt acc rest
  | cons attr attrs ih =>
      have hattrs : ∀ a ∈ attrs, IsAttr a := fun a ha => h a (List.mem_cons_of_mem _ ha)
      have hnew : attr.1 ∉ acc.names := by
        intro hmem
        simp only [Entries.names, List.map_append, List.map_cons, List.nodup_append] at hnames
        exact hnames.2.2 _ hmem _ (List.mem_cons_self ..) rfl
      have hsplit : attrsChars (attr :: attrs) ++ '>' :: rest
          = ' ' :: (attrChars attr ++ (attrsChars attrs ++ '>' :: rest)) := by
        simp [attrsChars]
      have hacc : acc ++ attr :: attrs = (acc ++ [attr]) ++ attrs := by simp
      rw [hacc] at hnames ⊢
      rw [hsplit, readAttrs?_attr (h attr (List.mem_cons_self ..)) (endsAttr_attrsChars hattrs rest),
        Entries.put_of_not_mem hnew, ih hattrs _ hnames]

/-! ## Blocks -/

/-- The names under which blocks are filed on their own. -/
def knownTags : List String := ["template", "script", "style"]

/-- A tag that is written and read as it is: a letter and characters of tag
names, in lower case where the name is that of a known kind. -/
structure IsBlockTag (tag : String) : Prop where
  starts : ∃ c more, tag.toList = c :: more ∧ c.isAlpha = true
  inside : ∀ c ∈ tag.toList, isTagNameChar c = true
  canonical : ∀ known ∈ knownTags, sameIgnoringCase tag.toList known.toList = true → tag = known

/-- A content that ends where the closing tag was written. -/
def IsContent (tag : String) (content : String) : Prop :=
  if tag = "template" then BalancedTemplates content.toList
  else NoCloseTag tag.toList content.toList

/-- A block that can be written. -/
structure Block.Printable (b : Block) : Prop where
  tag : IsBlockTag b.tag
  attrs : ∀ attr ∈ b.attrs, IsAttr attr
  names : b.attrs.names.Nodup
  content : IsContent b.tag b.content

/-- A block without the places at which it stands. -/
def Block.unplaced (b : Block) : Block := { b with span := ⟨0, 0⟩, contentSpan := ⟨0, 0⟩ }

@[simp] theorem Block.tag_unplaced (b : Block) : b.unplaced.tag = b.tag := rfl

@[simp] theorem Block.isSetup_unplaced (b : Block) : b.unplaced.isSetup = b.isSetup := rfl

@[simp] theorem Block.label_unplaced (b : Block) : b.unplaced.label = b.label := rfl

@[simp] theorem Block.span_unplaced (b : Block) : b.unplaced.span = ⟨0, 0⟩ := rfl

theorem toLower_known {known : String} (h : known ∈ knownTags) :
    known.toList.map Char.toLower = known.toList := by
  simp only [knownTags, List.mem_cons, List.not_mem_nil, or_false] at h
  rcases h with rfl | rfl | rfl <;> decide

theorem IsBlockTag.canonicalTag_eq {tag : String} (h : IsBlockTag tag) :
    canonicalTag tag.toList = tag.toList := by
  unfold canonicalTag
  split
  · rename_i hany
    obtain ⟨known, hmem, hsame⟩ := List.any_eq_true.mp hany
    have htag : tag = known := h.canonical known hmem hsame
    rw [htag]
    exact toLower_known hmem
  · rfl

theorem IsBlockTag.lt_not_mem {tag : String} (h : IsBlockTag tag) : '<' ∉ tag.toList := by
  intro hmem
  exact absurd (h.inside _ hmem) (by decide)

theorem headNot_attrsChars (attrs : Entries (Option String)) (rest : List Char) :
    HeadNot isTagNameChar (attrsChars attrs ++ '>' :: rest) := by
  cases attrs <;> exact headNot_cons.mpr (by decide)

/-- The opening tag of a block is read as it was written. -/
theorem readOpenTag_append {b : Block} (h : b.Printable) (rest : List Char) :
    readOpenTag (b.tag.toList ++ (attrsChars b.attrs ++ '>' :: rest))
      = .ok (⟨b.tag.toList, b.attrs, false⟩, rest) := by
  have hhead := headNot_attrsChars b.attrs rest
  have hattrs := readAttrs?_attrsChars h.attrs rest [] h.names
  rw [List.nil_append] at hattrs
  unfold readOpenTag
  simp only [takeWhile_append_headNot h.tag.inside hhead,
    dropWhile_append_headNot h.tag.inside hhead, hattrs, h.tag.canonicalTag_eq]

/-- The closing tag that is written behind a content. -/
def closeTagChars (tag : String) : List Char := '<' :: '/' :: (tag.toList ++ ['>'])

theorem isCloseTag_closeTagChars (tag : String) : IsCloseTag tag.toList (closeTagChars tag) :=
  ⟨tag.toList, [], rfl, sameIgnoringCase_self _, fun _ hc => nomatch hc⟩

theorem toList_join (texts : List String) :
    (String.join texts).toList = texts.flatMap String.toList := by
  rw [String.toList_join, List.flatMap_def]

/-- The text of a block, piece by piece. -/
theorem Block.toList_render (b : Block) :
    b.render.toList = '<' :: (b.tag.toList ++ (attrsChars b.attrs ++ '>' ::
      (b.content.toList ++ closeTagChars b.tag))) := by
  have hattrs : (String.join (b.attrs.map renderAttr)).toList = attrsChars b.attrs := by
    rw [toList_join, List.flatMap_map]
    simp only [toList_renderAttr]
    rfl
  simp [Block.render, hattrs, closeTagChars]

/-- The content of an element and what follows its closing tag. An element that
closes itself has no content. -/
def readContent? (tag : OpenTag) (inner : List Char) : Option (List Char × List Char) :=
  if tag.selfClosing then some ([], inner)
  else if String.ofList tag.tag = "template" then readTemplate? .content 0 inner
  else readRaw? tag.tag inner

/-- The block of an element, of which `inner` follows the opening tag. -/
def OpenTag.block (tag : OpenTag) (size : Nat) (cs inner content rest : List Char) : Block where
  tag := String.ofList tag.tag
  attrs := tag.attrs
  content := String.ofList content
  span := ⟨size - byteSize cs - 1, size - byteSize rest⟩
  contentSpan := ⟨size - byteSize inner, size - byteSize inner + byteSize content⟩

/-- How a block is read. -/
theorem readBlock_eq (size : Nat) (cs : List Char) :
    readBlock size cs = match readOpenTag cs with
      | .error tag => .error ⟨.unterminated (String.ofList tag), ⟨size - byteSize cs - 1, size⟩⟩
      | .ok (tag, inner) => match readContent? tag inner with
        | none => .error ⟨.unclosed (String.ofList tag.tag), ⟨size - byteSize cs - 1, size⟩⟩
        | some (content, rest) => .ok (tag.block size cs inner content rest, rest) := by
  rfl

theorem tag_eq_templateTag {tag : List Char} (h : String.ofList tag = "template") :
    tag = templateTag := by
  have htag := congrArg String.toList h
  rwa [String.toList_ofList] at htag

/-- A content in front of the closing tag of its element is read. -/
theorem readContent?_append {tag : OpenTag} {content close : List Char}
    (hself : tag.selfClosing = false) (htag : '<' ∉ tag.tag)
    (hcontent : IsContent (String.ofList tag.tag) (String.ofList content))
    (hclose : IsCloseTag tag.tag close) (rest : List Char) :
    readContent? tag (content ++ (close ++ rest)) = some (content, rest) := by
  unfold IsContent at hcontent
  rw [String.toList_ofList, String.toList_ofList] at hcontent
  rw [readContent?, hself, if_neg Bool.false_ne_true]
  split
  · rename_i htemplate
    rw [if_pos htemplate] at hcontent
    rw [tag_eq_templateTag htemplate] at hclose
    exact readTemplate?_append hcontent hclose
  · rename_i htemplate
    rw [if_neg htemplate] at hcontent
    exact readRaw?_append htag hcontent hclose

/-- The block as it stands in a text of `size` bytes in front of `rest`. -/
def Block.placed (b : Block) (size : Nat) (rest : List Char) : Block :=
  let contentStart := size - byteSize (b.content.toList ++ (closeTagChars b.tag ++ rest))
  { b with
    span := ⟨size - byteSize (b.render.toList ++ rest), size - byteSize rest⟩
    contentSpan := ⟨contentStart, contentStart + byteSize b.content.toList⟩ }

@[simp] theorem Block.unplaced_placed (b : Block) (size : Nat) (rest : List Char) :
    (b.placed size rest).unplaced = b.unplaced := by
  simp only [Block.placed, Block.unplaced]

/-- A block is read as it was written, whatever follows it. -/
theorem readBlock_render {b : Block} (h : b.Printable) {cs : List Char}
    (hcs : b.render.toList = '<' :: cs) (size : Nat) (rest : List Char) :
    readBlock size (cs ++ rest) = .ok (b.placed size rest, rest) := by
  have hstart : size - byteSize (b.render.toList ++ rest) = size - byteSize (cs ++ rest) - 1 := by
    have hlt : ('<' : Char).utf8Size = 1 := by decide
    rw [hcs, List.cons_append, byteSize_cons, hlt, Nat.add_comm, Nat.sub_sub]
  unfold Block.placed
  rw [hstart]
  rw [Block.toList_render] at hcs
  obtain rfl := (List.cons.inj hcs).2
  have hsplit : b.tag.toList ++ (attrsChars b.attrs ++ '>' ::
        (b.content.toList ++ closeTagChars b.tag)) ++ rest
      = b.tag.toList ++ (attrsChars b.attrs ++ '>' ::
        (b.content.toList ++ (closeTagChars b.tag ++ rest))) := by simp
  rw [hsplit]
  have hcontent : IsContent (String.ofList b.tag.toList) (String.ofList b.content.toList) := by
    simpa only [String.ofList_toList] using h.content
  have hself : (⟨b.tag.toList, b.attrs, false⟩ : OpenTag).selfClosing = false := rfl
  have hread := readContent?_append hself h.tag.lt_not_mem hcontent
    (isCloseTag_closeTagChars b.tag) rest
  rw [readBlock_eq, readOpenTag_append h]
  dsimp only
  rw [hread]
  simp [OpenTag.block]

/-! ## Files -/

/-- Text without `<` holds no block. -/
theorem readBlocks_skip {size : Nat} {cs : List Char} (h : '<' ∉ cs) (rest : List Char) :
    readBlocks size (cs ++ rest) = readBlocks size rest := by
  induction cs with
  | nil => rfl
  | cons c cs ih =>
      have hc : c ≠ '<' := fun hc => h (hc ▸ List.mem_cons_self ..)
      have hcs : '<' ∉ cs := fun hmem => h (List.mem_cons_of_mem _ hmem)
      rw [List.cons_append, readBlocks, if_pos hc, ih hcs]

/-- An element begins with `<` and a letter. -/
def BeginsElement (cs : List Char) : Prop :=
  ∃ c rest, cs = '<' :: c :: rest ∧ c.isAlpha = true

theorem beginsElement_iff {cs : List Char} :
    BeginsElement ('<' :: cs) ↔ cs.head?.any Char.isAlpha = true := by
  cases cs <;> simp [BeginsElement]

theorem BeginsElement.not_comment {cs : List Char} (h : BeginsElement ('<' :: cs)) :
    cs.take 3 ≠ ['!', '-', '-'] := by
  obtain ⟨c, rest, hcs, hc⟩ := h
  obtain rfl := (List.cons.inj hcs).2
  rintro htake
  obtain rfl := (List.cons.inj htake).1
  exact absurd hc (by decide)

theorem readBlocks_element {size : Nat} {cs : List Char} (hbegins : BeginsElement ('<' :: cs)) :
    readBlocks size ('<' :: cs) = match readBlock size cs with
      | .error e => ([], some e)
      | .ok (b, rest) => (b :: (readBlocks size rest).1, (readBlocks size rest).2) := by
  rw [readBlocks, if_neg (fun hne => hne rfl), if_neg hbegins.not_comment,
    if_neg (by simp [beginsElement_iff.mp hbegins])]
  split
  · rename_i heq
    simp only [heq]
  · rename_i heq
    simp only [heq]

/-- The block that stands next is read first. -/
theorem readBlocks_render {b : Block} (h : b.Printable) (size : Nat) (rest : List Char) :
    readBlocks size (b.render.toList ++ rest)
      = (b.placed size rest :: (readBlocks size rest).1, (readBlocks size rest).2) := by
  obtain ⟨c, more, htag, hc⟩ := h.tag.starts
  have hrender := b.toList_render
  rw [htag, List.cons_append] at hrender
  have hread := readBlock_render h hrender size rest
  rw [hrender, List.cons_append, readBlocks_element ⟨c, _, List.cons_append, hc⟩, hread]

/-- Blocks with a blank line behind each of them. -/
def spacedChars (bs : List Block) : List Char :=
  bs.flatMap fun b => b.render.toList ++ ['\n', '\n']

/-- All blocks in front of a text are read, in their order. -/
theorem readBlocks_spacedChars {bs : List Block} (h : ∀ b ∈ bs, b.Printable) (size : Nat)
    (rest : List Char) :
    ∃ bs', bs'.map Block.unplaced = bs.map Block.unplaced ∧
      readBlocks size (spacedChars bs ++ rest)
        = (bs' ++ (readBlocks size rest).1, (readBlocks size rest).2) := by
  induction bs with
  | nil => exact ⟨[], rfl, rfl⟩
  | cons b bs ih =>
      obtain ⟨bs', hbs', hread⟩ := ih fun b hb => h b (List.mem_cons_of_mem _ hb)
      have hfirst := readBlocks_render (h b (List.mem_cons_self ..)) size
        (['\n', '\n'] ++ (spacedChars bs ++ rest))
      have hsplit : spacedChars (b :: bs) ++ rest
          = b.render.toList ++ (['\n', '\n'] ++ (spacedChars bs ++ rest)) := by
        simp [spacedChars]
      refine ⟨b.placed size (['\n', '\n'] ++ (spacedChars bs ++ rest)) :: bs', ?_, ?_⟩
      · rw [List.map_cons, List.map_cons, Block.unplaced_placed, hbs']
      · rw [hsplit, hfirst, readBlocks_skip (by decide), hread]
        rfl

theorem trimStart_cons {c : Char} {cs : List Char} (h : isBlank c = false) :
    trimStart (c :: cs) = c :: cs :=
  HeadNot.dropWhile (headNot_cons.mpr h)

/-- Blanks behind a character that is none are all that is trimmed off. -/
theorem trimEnd_append {cs blanks : List Char} {c : Char} (h : isBlank c = false)
    (hblanks : ∀ d ∈ blanks, isBlank d = true) : trimEnd (cs ++ [c] ++ blanks) = cs ++ [c] := by
  unfold trimEnd
  rw [List.reverse_append, dropWhile_append_headNot]
  · simp
  · intro d hd
    exact hblanks d (List.mem_reverse.mp hd)
  · rw [List.reverse_append]
    exact headNot_cons.mpr h

/-- A block begins with `<` and ends with `>`. -/
theorem Block.toList_render_ends (b : Block) : ∃ cs, b.render.toList = '<' :: (cs ++ ['>']) := by
  refine ⟨b.tag.toList ++ (attrsChars b.attrs ++ '>' ::
    (b.content.toList ++ ('<' :: '/' :: b.tag.toList))), ?_⟩
  rw [Block.toList_render]
  simp [closeTagChars]

/-- The text of a file: the last block is followed by one line feed only. -/
theorem toList_render_of_blocks {d : Descriptor} {bs : List Block} {b : Block}
    (h : d.blocks = bs ++ [b]) :
    d.render.toList = spacedChars bs ++ (b.render.toList ++ ['\n']) := by
  have hjoin : (String.join (d.blocks.map fun b => b.render ++ "\n\n")).toList
      = spacedChars bs ++ b.render.toList ++ ['\n', '\n'] := by
    rw [toList_join, List.flatMap_map, h]
    simp [spacedChars]
  have hstart : trimStart (spacedChars bs ++ b.render.toList ++ ['\n', '\n'])
      = spacedChars bs ++ b.render.toList ++ ['\n', '\n'] := by
    cases bs with
    | nil =>
        obtain ⟨cs, hcs⟩ := b.toList_render_ends
        rw [hcs]
        exact trimStart_cons (by decide)
    | cons b₀ bs =>
        obtain ⟨cs, hcs⟩ := b₀.toList_render_ends
        simp only [spacedChars, List.flatMap_cons, hcs, List.cons_append]
        exact trimStart_cons (by decide)
  have hend : trimEnd (spacedChars bs ++ b.render.toList ++ ['\n', '\n'])
      = spacedChars bs ++ b.render.toList := by
    obtain ⟨cs, hcs⟩ := b.toList_render_ends
    have hlast : spacedChars bs ++ b.render.toList = (spacedChars bs ++ '<' :: cs) ++ ['>'] := by
      simp [hcs]
    rw [hlast]
    exact trimEnd_append (by decide) (List.all_eq_true.mp (by decide))
  unfold Descriptor.render trim
  rw [String.toList_append, String.toList_ofList, hjoin, hstart, hend]
  simp

theorem toList_render_of_no_blocks {d : Descriptor} (h : d.blocks = []) :
    d.render.toList = ['\n'] := by
  simp [Descriptor.render, h, trim, trimStart, trimEnd]

/-- The blocks of a file are read in the order in which they were written, and
nothing is left over. -/
theorem readBlocks_render_file {d : Descriptor} (h : ∀ b ∈ d.blocks, b.Printable) (size : Nat) :
    ∃ bs, bs.map Block.unplaced = d.blocks.map Block.unplaced
      ∧ readBlocks size d.render.toList = (bs, none) := by
  have hfeed : readBlocks size ['\n'] = ([], none) := by
    simp [readBlocks]
  rcases List.eq_nil_or_concat d.blocks with hnil | ⟨bs, b, hblocks⟩
  · refine ⟨[], by rw [hnil], ?_⟩
    rw [toList_render_of_no_blocks hnil, hfeed]
  · rw [List.concat_eq_append] at hblocks
    rw [hblocks] at h
    obtain ⟨bs', hbs', hread⟩ :=
      readBlocks_spacedChars (fun b hb => h b (List.mem_append_left _ hb)) size
        (b.render.toList ++ ['\n'])
    have hlast :=
      readBlocks_render (h b (List.mem_append_right _ (List.mem_singleton_self b))) size ['\n']
    refine ⟨bs' ++ [b.placed size ['\n']], by simp [hblocks, hbs'], ?_⟩
    rw [toList_render_of_blocks hblocks, hread, hlast, hfeed]

/-! ## Filing -/

/-- Every block stands in the slot of its kind. -/
structure Descriptor.Slotted (d : Descriptor) : Prop where
  template : ∀ b ∈ d.template, b.tag = "template"
  script : ∀ b ∈ d.script, b.tag = "script" ∧ b.isSetup = false
  scriptSetup : ∀ b ∈ d.scriptSetup, b.tag = "script" ∧ b.isSetup = true
  styles : ∀ b ∈ d.styles, b.tag = "style"
  customBlocks : ∀ b ∈ d.customBlocks, b.tag ∉ knownTags

/-- A descriptor without the places at which its blocks stand. -/
def Descriptor.unplaced (d : Descriptor) : Descriptor where
  template := d.template.map Block.unplaced
  script := d.script.map Block.unplaced
  scriptSetup := d.scriptSetup.map Block.unplaced
  styles := d.styles.map Block.unplaced
  customBlocks := d.customBlocks.map Block.unplaced

def BlockError.unplaced (e : BlockError) : BlockError := { e with span := ⟨0, 0⟩ }

def Scan.unplaced (s : Scan) : Scan where
  descriptor := s.descriptor.unplaced
  errors := s.errors.map BlockError.unplaced

/-- Where a block is filed does not depend on its place. -/
theorem Scan.unplaced_file (s : Scan) (b : Block) :
    (s.file b).unplaced = s.unplaced.file b.unplaced := by
  unfold Scan.file
  by_cases htemplate : b.tag = "template"
  · cases h : s.descriptor.template <;>
      simp [htemplate, h, Scan.unplaced, Descriptor.unplaced, BlockError.unplaced]
  · by_cases hscript : b.tag = "script"
    · cases hsetup : b.isSetup
      · cases h : s.descriptor.script <;>
          simp [hscript, hsetup, h, Scan.unplaced, Descriptor.unplaced, BlockError.unplaced]
      · cases h : s.descriptor.scriptSetup <;>
          simp [hscript, hsetup, h, Scan.unplaced, Descriptor.unplaced, BlockError.unplaced]
    · by_cases hstyle : b.tag = "style" <;>
        simp [htemplate, hscript, hstyle, Scan.unplaced, Descriptor.unplaced]

theorem Scan.unplaced_foldl_file (s : Scan) (bs : List Block) :
    (bs.foldl Scan.file s).unplaced = (bs.map Block.unplaced).foldl Scan.file s.unplaced := by
  induction bs generalizing s with
  | nil => rfl
  | cons b bs ih => rw [List.foldl_cons, ih, Scan.unplaced_file, List.map_cons, List.foldl_cons]

theorem Descriptor.blocks_unplaced (d : Descriptor) :
    d.unplaced.blocks = d.blocks.map Block.unplaced := by
  simp [Descriptor.blocks, Descriptor.unplaced, Option.toList_map]

theorem Descriptor.Slotted.unplaced {d : Descriptor} (h : d.Slotted) : d.unplaced.Slotted where
  template := by
    intro b hb
    obtain ⟨b₀, hb₀, rfl⟩ := Option.map_eq_some_iff.mp hb
    exact h.template b₀ hb₀
  script := by
    intro b hb
    obtain ⟨b₀, hb₀, rfl⟩ := Option.map_eq_some_iff.mp hb
    exact h.script b₀ hb₀
  scriptSetup := by
    intro b hb
    obtain ⟨b₀, hb₀, rfl⟩ := Option.map_eq_some_iff.mp hb
    exact h.scriptSetup b₀ hb₀
  styles := by
    intro b hb
    obtain ⟨b₀, hb₀, rfl⟩ := List.mem_map.mp hb
    exact h.styles b₀ hb₀
  customBlocks := by
    intro b hb
    obtain ⟨b₀, hb₀, rfl⟩ := List.mem_map.mp hb
    exact h.customBlocks b₀ hb₀

theorem foldl_file_styles {bs : List Block} (h : ∀ b ∈ bs, b.tag = "style") (d : Descriptor) :
    bs.foldl Scan.file ⟨d, []⟩ = ⟨{ d with styles := d.styles ++ bs }, []⟩ := by
  induction bs generalizing d with
  | nil => simp
  | cons b bs ih =>
      have hfile : Scan.file ⟨d, []⟩ b = ⟨{ d with styles := d.styles ++ [b] }, []⟩ := by
        simp [Scan.file, h b (List.mem_cons_self ..)]
      rw [List.foldl_cons, hfile, ih fun b hb => h b (List.mem_cons_of_mem _ hb)]
      simp

theorem foldl_file_customBlocks {bs : List Block} (h : ∀ b ∈ bs, b.tag ∉ knownTags)
    (d : Descriptor) :
    bs.foldl Scan.file ⟨d, []⟩ = ⟨{ d with customBlocks := d.customBlocks ++ bs }, []⟩ := by
  induction bs generalizing d with
  | nil => simp
  | cons b bs ih =>
      have htag := h b (List.mem_cons_self ..)
      have hfile : Scan.file ⟨d, []⟩ b
          = ⟨{ d with customBlocks := d.customBlocks ++ [b] }, []⟩ := by
        simp only [knownTags, List.mem_cons, List.not_mem_nil, or_false, not_or] at htag
        simp [Scan.file, htag]
      rw [List.foldl_cons, hfile, ih fun b hb => h b (List.mem_cons_of_mem _ hb)]
      simp

/-- Blocks that stand in their slots are filed in these slots again. -/
theorem Descriptor.Slotted.foldl_file {d : Descriptor} (h : d.Slotted) :
    d.blocks.foldl Scan.file {} = ⟨d, []⟩ := by
  obtain ⟨template, script, scriptSetup, styles, customBlocks⟩ := d
  have hsetup : scriptSetup.toList.foldl Scan.file {} = ⟨{ scriptSetup }, []⟩ := by
    cases scriptSetup with
    | none => rfl
    | some b => simp [Scan.file, h.scriptSetup b rfl]
  have htemplate : template.toList.foldl Scan.file ⟨{ scriptSetup }, []⟩
      = ⟨{ scriptSetup, template }, []⟩ := by
    cases template with
    | none => rfl
    | some b => simp [Scan.file, h.template b rfl]
  have hscript : script.toList.foldl Scan.file ⟨{ scriptSetup, template }, []⟩
      = ⟨{ scriptSetup, template, script }, []⟩ := by
    cases script with
    | none => rfl
    | some b => simp [Scan.file, h.script b rfl]
  simp only [Descriptor.blocks, List.foldl_append, hsetup, htemplate, hscript,
    foldl_file_styles h.styles, foldl_file_customBlocks h.customBlocks, List.nil_append]

/-! ## Round trip -/

/-- A descriptor that can be written: its blocks can, and stand in their slots. -/
structure Descriptor.Printable (d : Descriptor) : Prop where
  slots : d.Slotted
  blocks : ∀ b ∈ d.blocks, b.Printable

/-- Scanning what was written gives the descriptor again. -/
theorem unplaced_scan_render {d : Descriptor} (h : d.Printable) :
    (scan d.render).unplaced = ⟨d.unplaced, []⟩ := by
  obtain ⟨bs, hbs, hread⟩ := readBlocks_render_file h.blocks (byteSize d.render.toList)
  have hscan : scan d.render = bs.foldl Scan.file {} := by
    simp [scan, hread]
  rw [hscan, Scan.unplaced_foldl_file, hbs, ← Descriptor.blocks_unplaced]
  exact h.slots.unplaced.foldl_file

/-- Reading what was written gives no errors and the same blocks in the same
slots, in the same order, with the same attributes and contents. -/
theorem scan_render {d : Descriptor} (h : d.Printable) :
    (scan d.render).errors = [] ∧ (scan d.render).descriptor.unplaced = d.unplaced := by
  have hscan := unplaced_scan_render h
  exact ⟨List.map_eq_nil_iff.mp (congrArg Scan.errors hscan), congrArg Scan.descriptor hscan⟩

/-- Nested templates, and contents that end in the middle of a closing tag. -/
def cutOffContents : Descriptor where
  template := some
    { tag := "template", content := "a<Template/><template v-if=\"b > c\">d</template >e</temp" }
  script := some { tag := "script", attrs := [("lang", some "ts")], content := "x </scr" }
  scriptSetup := some { tag := "script", attrs := [("setup", none)], content := "<" }
  styles :=
    [{ tag := "style", attrs := [("scoped", none), ("title", some "a>/b")], content := "</style" }]
  customBlocks := [{ tag := "i18n", content := "</script></i18" }]

theorem balancedTemplates_cutOffContents :
    BalancedTemplates "a<Template/><template v-if=\"b > c\">d</template >e</temp".toList := by
  have hsplit : "a<Template/><template v-if=\"b > c\">d</template >e</temp".toList
      = "a".toList ++ ("<Template/>".toList ++ ("<template v-if=\"b >".toList ++ (" c\">d".toList
        ++ ("</template >".toList ++ ("e".toList ++ '<' :: "/temp".toList))))) := by decide
  have hself : IsOpenTag templateTag true "<Template/>".toList :=
    ⟨"Template".toList, ['/'], by decide, by decide, headNot_cons.mpr (by decide), by decide, rfl⟩
  have hopen : IsOpenTag templateTag false "<template v-if=\"b >".toList :=
    ⟨"template".toList, " v-if=\"b ".toList, by decide, by decide, headNot_cons.mpr (by decide),
      by decide, by decide⟩
  have hclose : IsCloseTag templateTag "</template >".toList :=
    ⟨"template".toList, [' '], by decide, by decide, List.all_eq_true.mp (by decide)⟩
  have hpartial : BalancedTemplates ('<' :: ("/temp".toList ++ [])) := by
    refine .text ?_ (readCloseTag?_eq_none_iff.mp (by decide)) (.plain (by decide) .nil)
    rw [opensTag_iff]
    decide
  have hinner : BalancedTemplates (" c\">d".toList ++ []) := .plain (by decide) .nil
  rw [List.append_nil] at hpartial hinner
  rw [hsplit]
  exact .plain (by decide) (.selfClosed hself (.nested hopen hinner hclose (.plain (by decide) hpartial)))

theorem printable_cutOffContents : cutOffContents.Printable where
  slots := by
    constructor <;> simp [cutOffContents, knownTags, Block.isSetup, Entries.has, Entries.get?]
  blocks := by
    have htemplate : IsBlockTag "template" :=
      ⟨⟨_, _, rfl, by decide⟩, List.all_eq_true.mp (by decide), by decide⟩
    have hscript : IsBlockTag "script" :=
      ⟨⟨_, _, rfl, by decide⟩, List.all_eq_true.mp (by decide), by decide⟩
    have hstyle : IsBlockTag "style" :=
      ⟨⟨_, _, rfl, by decide⟩, List.all_eq_true.mp (by decide), by decide⟩
    have hcustom : IsBlockTag "i18n" :=
      ⟨⟨_, _, rfl, by decide⟩, List.all_eq_true.mp (by decide), by decide⟩
    have hraw : ∀ tag content : String, tag ≠ "template" →
        NoCloseTag tag.toList content.toList → IsContent tag content := by
      intro tag content htag h
      rwa [IsContent, if_neg htag]
    simp only [cutOffContents, Descriptor.blocks, Option.toList_some, List.cons_append,
      List.nil_append, List.forall_mem_cons]
    exact ⟨⟨hscript, by decide, by decide, hraw _ _ (by decide) (by decide)⟩,
      ⟨htemplate, by decide, by decide, balancedTemplates_cutOffContents⟩,
      ⟨hscript, by decide, by decide, hraw _ _ (by decide) (by decide)⟩,
      ⟨hstyle, by decide, by decide, hraw _ _ (by decide) (by decide)⟩,
      ⟨hcustom, by decide, by decide, hraw _ _ (by decide) (by decide)⟩, fun _ hb => nomatch hb⟩

theorem scan_render_cutOffContents :
    cutOffContents.Printable ∧ (scan cutOffContents.render).errors = []
      ∧ (scan cutOffContents.render).descriptor.unplaced = cutOffContents.unplaced :=
  ⟨printable_cutOffContents, scan_render printable_cutOffContents⟩

end Recompose
