import Mathlib
import Recompose.Proofs.ComponentFiling
import Recompose.Proofs.Entries

/-!
# Writing what was read

What the scanner reads is written and read again as it is, if no value of an
attribute holds a double quote. Such a value is read from between single quotes
or from a value without quotes, and is written between double ones.

Every other condition of `Block.Printable` holds of each block that was read:
names of attributes are told apart (`attrNames_readAttrs?`), a tag is in the case
of its kind (`isBlockTag_canonicalTag`), a raw content ends at its first closing
tag (`noCloseTag_of_readRaw?`) and the template tags of a template match up
(`closesTemplates_of_readTemplate?`). The blocks stand in the slots of their kinds
because that is where they are filed (`slotted_filedBlocks`).
-/

namespace Recompose

/-! ## Attributes -/

/-- Names of attributes that can be written, each once. -/
structure AttrNames (attrs : Entries (Option String)) : Prop where
  name : ∀ attr ∈ attrs, IsAttrName attr.1
  nodup : attrs.names.Nodup

theorem AttrNames.nil : AttrNames [] := ⟨(fun _ h => nomatch h), .nil⟩

theorem AttrNames.put {attrs : Entries (Option String)} {name : String} (h : AttrNames attrs)
    (hname : IsAttrName name) (value : Option String) : AttrNames (attrs.put name value) where
  name := by
    intro attr hattr
    rcases Entries.mem_of_mem_put hattr with hattr | rfl
    · exact h.name attr hattr
    · exact hname
  nodup := Entries.nodup_names_put h.nodup name value

/-- A name that has begun goes on up to a character that ends it. -/
theorem isAttrName_of_readAttr? {c : Char} {cs name rest : List Char} {value : Option (List Char)}
    (hc : isAttrNameEnd c = false) (h : readAttr? (c :: cs) = some ((name, value), rest)) :
    IsAttrName (String.ofList name) := by
  have hname : name = (c :: cs).takeWhile (!isAttrNameEnd ·) := by
    unfold readAttr? at h
    dsimp only at h
    split at h
    · obtain ⟨p, -, hp⟩ := Option.map_eq_some_iff.mp h
      exact (congrArg (·.1.1) hp).symm
    · exact (congrArg (·.1.1) (Option.some.inj h)).symm
  constructor
  · rw [String.toList_ofList, hname, List.takeWhile_cons_of_pos (by simp [hc])]
    exact List.cons_ne_nil _ _
  · intro d hd
    rw [String.toList_ofList, hname] at hd
    simpa using List.all_eq_true.mp (List.all_takeWhile ..) d hd

theorem attrNames_readAttrs? {attrs attrs' : Entries (Option String)} {selfClosing : Bool}
    {cs rest : List Char} (hattrs : AttrNames attrs)
    (h : readAttrs? attrs cs = some (attrs', selfClosing, rest)) : AttrNames attrs' := by
  fun_induction readAttrs? attrs cs with
  | case1 => cases h
  | case2 | case3 =>
      obtain ⟨rfl, -⟩ := Prod.mk.inj (Option.some.inj h)
      exact hattrs
  | case4 _ _ _ _ _ _ _ _ _ ih => exact ih hattrs h
  | case5 => cases h
  | case6 _ _ c _ _ _ _ _ hend name value _ hattr _ ih =>
      have hname := isAttrName_of_readAttr? (by simpa using hend) hattr
      exact ih (hattrs.put hname _) h

/-! ## Tags -/

/-- A character that changes becomes a letter in lower case. -/
theorem toLower_eq_self_or_isLower (c : Char) : c.toLower = c ∨ c.toLower.isLower = true := by
  cases h : c.toLower.isLower
  · exact .inl (eq_of_toLower rfl h).symm
  · exact .inr rfl

theorem isTagNameChar_toLower {c : Char} (h : isTagNameChar c = true) :
    isTagNameChar c.toLower = true := by
  rcases toLower_eq_self_or_isLower c with hc | hc
  · rw [hc, h]
  · simp [isTagNameChar, Char.isAlphanum, Char.isAlpha, hc]

theorem map_toLower_map_toLower (cs : List Char) :
    (cs.map Char.toLower).map Char.toLower = cs.map Char.toLower := by
  simp

/-- The name of a block is one that is written and read as it is. -/
theorem isBlockTag_canonicalTag {c : Char} (hc : c.isAlpha = true) (cs : List Char) :
    IsBlockTag (String.ofList (canonicalTag ((c :: cs).takeWhile isTagNameChar))) := by
  have hinside : isTagNameChar c = true := by
    simp [isTagNameChar, Char.isAlphanum, hc]
  obtain ⟨raw, hraw, hall⟩ : ∃ raw, (c :: cs).takeWhile isTagNameChar = c :: raw ∧
      ∀ d ∈ c :: raw, isTagNameChar d = true := by
    have htake := List.takeWhile_cons_of_pos (l := cs) hinside
    exact ⟨_, htake, htake ▸ List.all_eq_true.mp (List.all_takeWhile ..)⟩
  rw [hraw]
  unfold canonicalTag
  split
  · rename_i hany
    obtain ⟨known, hknown, hsame⟩ := List.any_eq_true.mp hany
    have hlower := sameIgnoringCase_iff.mp hsame
    rw [toLower_known hknown] at hlower
    have hletter : c.toLower.isAlpha = true := by rw [Char.isAlpha_toLower_eq_isAlpha, hc]
    refine ⟨⟨c.toLower, raw.map Char.toLower, by simp, hletter⟩, ?_, ?_⟩
    · intro d hd
      rw [String.toList_ofList] at hd
      obtain ⟨e, he, rfl⟩ := List.mem_map.mp hd
      exact isTagNameChar_toLower (hall e he)
    · intro known' hknown' hsame'
      rw [String.toList_ofList, sameIgnoringCase_iff, map_toLower_map_toLower,
        toLower_known hknown'] at hsame'
      rw [hsame', String.ofList_toList]
  · rename_i hany
    refine ⟨⟨c, raw, by simp, hc⟩, by simpa using hall, ?_⟩
    intro known hknown hsame
    rw [String.toList_ofList] at hsame
    exact absurd (List.any_eq_true.mpr ⟨known, hknown, hsame⟩) hany

/-! ## Raw contents -/

/-- Where no closing tag begins a text, none begins the front part of it. -/
theorem not_isCloseTag_of_append {tag cs more : List Char}
    (h : ∀ close post, cs ++ more = close ++ post → ¬ IsCloseTag tag close) :
    ∀ close post, cs = close ++ post → ¬ IsCloseTag tag close := by
  rintro close post rfl
  exact h close (post ++ more) (List.append_assoc ..)

/-- A raw content holds no closing tag, and one follows it. -/
theorem noCloseTag_of_readRaw? {tag cs content rest : List Char}
    (h : readRaw? tag cs = some (content, rest)) :
    NoCloseTag tag content ∧ ∃ close, cs = content ++ (close ++ rest) ∧ IsCloseTag tag close := by
  induction cs generalizing content with
  | nil => cases h
  | cons c cs ih =>
      unfold readRaw? at h
      split at h
      · rename_i hclose
        obtain ⟨rfl, rfl⟩ := Prod.mk.inj (Option.some.inj h)
        exact ⟨noCloseTag_nil tag, readCloseTag?_eq_some_iff.mp hclose⟩
      · rename_i hnone
        obtain ⟨⟨content, rest⟩, hread, heq⟩ := Option.map_eq_some_iff.mp h
        obtain ⟨rfl, rfl⟩ := Prod.mk.inj heq
        obtain ⟨hcontent, close, rfl, hclose⟩ := ih hread
        refine ⟨noCloseTag_cons.mpr ⟨?_, hcontent⟩, close, rfl, hclose⟩
        rw [readCloseTag?_eq_none_iff] at hnone ⊢
        exact not_isCloseTag_of_append hnone

/-! ## Templates -/

/-- A text closes this many templates that were opened in front of it; apart from
that, its template tags match up. -/
def ClosesTemplates : Nat → List Char → Prop
  | 0, cs => BalancedTemplates cs
  | depth + 1, cs => ∃ inner close rest, cs = inner ++ (close ++ rest) ∧ BalancedTemplates inner ∧
      IsCloseTag templateTag close ∧ ClosesTemplates depth rest

/-- An opening tag in front of `<` is one without it. -/
theorem OpensTag.append_lt {tag cs : List Char} (h : OpensTag tag cs) (more : List Char) :
    OpensTag tag (cs ++ '<' :: more) := by
  obtain ⟨name, rest, rfl, hname, hrest⟩ := h
  refine ⟨name, rest ++ '<' :: more, by simp, hname, ?_⟩
  cases rest with
  | nil => exact headNot_cons.mpr (by decide)
  | cons c rest => exact hrest

theorem BalancedTemplates.tail {c : Char} {cs : List Char} (h : BalancedTemplates (c :: cs))
    (hc : c ≠ '<') : BalancedTemplates cs := by
  generalize heq : c :: cs = ds at h
  cases h with
  | nil => cases heq
  | text _ _ hcs => exact (List.cons.inj heq).2 ▸ hcs
  | selfClosed htag _ | nested htag _ _ _ =>
      obtain ⟨name, attrs, rfl, -⟩ := htag
      exact absurd (List.cons.inj heq).1 hc

namespace ClosesTemplates

variable {depth : Nat} {cs : List Char}

/-- What keeps a text balanced that stands behind it can stand in front. -/
theorem prepend {front : List Char}
    (hfront : ∀ ds, BalancedTemplates ds → BalancedTemplates (front ++ ds))
    (h : ClosesTemplates depth cs) : ClosesTemplates depth (front ++ cs) := by
  cases depth with
  | zero => exact hfront cs h
  | succ depth =>
      obtain ⟨inner, close, rest, rfl, hinner, hclose, hrest⟩ := h
      exact ⟨front ++ inner, close, rest, by simp, hfront inner hinner, hclose, hrest⟩

theorem tail {c : Char} (h : ClosesTemplates depth (c :: cs)) (hc : c ≠ '<') :
    ClosesTemplates depth cs := by
  cases depth with
  | zero => exact BalancedTemplates.tail h hc
  | succ depth =>
      obtain ⟨inner, close, rest, heq, hinner, hclose, hrest⟩ := h
      obtain ⟨ds, rfl, -⟩ := hclose.eq_cons lt_not_mem_templateTag
      cases inner with
      | nil => exact absurd (List.cons.inj heq).1 hc
      | cons d inner =>
          obtain ⟨rfl, rfl⟩ := List.cons.inj heq
          exact ⟨inner, '<' :: ds, rest, rfl, hinner.tail hc, hclose, hrest⟩

theorem of_append {plain : List Char} (hplain : '<' ∉ plain)
    (h : ClosesTemplates depth (plain ++ cs)) : ClosesTemplates depth cs := by
  induction plain with
  | nil => exact h
  | cons c plain ih =>
      have hc : c ≠ '<' := fun hc => hplain (hc ▸ List.mem_cons_self ..)
      exact ih (fun hmem => hplain (List.mem_cons_of_mem _ hmem)) (h.tail hc)

/-- A character at which no template tag begins stands in front. -/
theorem text {c : Char} (h : ClosesTemplates depth cs) (hopen : ¬ OpensTag templateTag (c :: cs))
    (hclose : ∀ close post, c :: cs = close ++ post → ¬ IsCloseTag templateTag close) :
    ClosesTemplates depth (c :: cs) := by
  cases depth with
  | zero => exact BalancedTemplates.text hopen hclose h
  | succ depth =>
      obtain ⟨inner, close, rest, rfl, hinner, hend, hrest⟩ := h
      refine ⟨c :: inner, close, rest, rfl, .text ?_ ?_ hinner, hend, hrest⟩
      · obtain ⟨ds, rfl, -⟩ := hend.eq_cons lt_not_mem_templateTag
        exact fun hinside => hopen (hinside.append_lt (ds ++ rest))
      · exact not_isCloseTag_of_append hclose

/-- An opening tag stands in front, for a template that is closed later. -/
theorem openTag {tag : List Char} (htag : IsOpenTag templateTag false tag)
    (h : ClosesTemplates (depth + 1) cs) : ClosesTemplates depth (tag ++ cs) := by
  obtain ⟨inner, close, rest, rfl, hinner, hclose, hrest⟩ := h
  have hfront : ∀ ds, BalancedTemplates ds →
      BalancedTemplates ((tag ++ (inner ++ close)) ++ ds) := by
    intro ds hds
    simpa using BalancedTemplates.nested htag hinner hclose hds
  simpa using hrest.prepend hfront

end ClosesTemplates

/-- The tag that the scan goes through is an opening tag. What closes it is what
the scan looks at behind the name. -/
theorem exists_openTag {attrs rest after : List Char} (hgt : '>' ∉ attrs)
    (h : readTagName? templateTag (attrs ++ '>' :: rest) = some after) :
    ∃ selfClosing, IsOpenTag templateTag selfClosing ('<' :: (attrs ++ ['>'])) ∧
      (selfClosing = true ↔ attrs.getLast?.getD '<' = '/') := by
  obtain ⟨name, heq, hname, hafter⟩ := readTagName?_eq_some_iff.mp h
  have hgtName : '>' ∉ name := not_mem_of_sameIgnoringCase hname (by decide) rfl rfl
  have hslash : '/' ∉ name := not_mem_of_sameIgnoringCase hname (by decide) rfl rfl
  obtain ⟨behind, rfl, rfl⟩ : ∃ behind, attrs = name ++ behind ∧ after = behind ++ '>' :: rest := by
    rcases List.append_eq_append_iff.mp heq with ⟨mid, rfl, hmid⟩ | ⟨mid, rfl, hmid⟩
    · cases mid with
      | nil => exact ⟨[], by simp, by simpa using hmid.symm⟩
      | cons d mid =>
          obtain ⟨rfl, -⟩ := List.cons.inj hmid
          exact absurd (List.mem_append_right _ (List.mem_cons_self ..)) hgtName
    · exact ⟨mid, rfl, hmid⟩
  have hne : name ≠ [] := by
    rintro rfl
    exact absurd (length_of_sameIgnoringCase hname) (by decide)
  have hbehind : '>' ∉ behind := fun hmem => hgt (List.mem_append_right _ hmem)
  have hhead : HeadNot isTagNameChar behind := by
    cases behind with
    | nil => exact fun _ hc => nomatch hc
    | cons c behind => exact hafter
  refine ⟨behind.getLast? == some '/', ⟨name, behind, by simp, hname, hhead, hbehind, rfl⟩, ?_⟩
  rw [getLast?_getD_append hne hslash, beq_iff_eq]

/-- A content that was read up to the tag that closes it, from some place on. -/
def TemplatePlace.Reads (place : TemplatePlace) (depth : Nat) (content : List Char) : Prop :=
  match place with
  | .content => ClosesTemplates depth content
  | .tag previous => ∃ attrs inner, content = attrs ++ '>' :: inner ∧ '>' ∉ attrs ∧
      ClosesTemplates (if attrs.getLast?.getD previous = '/' then depth else depth + 1) inner

section

variable {depth : Nat} {content close rest : List Char}

/-- The first character of a closing tag stands in front, and the scan went on
behind it. -/
theorem ClosesTemplates.closed {c : Char} {inner after : List Char}
    (h : ClosesTemplates depth content) (hend : IsCloseTag templateTag close)
    (hinner : IsCloseTag templateTag inner)
    (hsplit : c :: (content ++ (close ++ rest)) = inner ++ after) :
    ClosesTemplates (depth + 1) (c :: content) := by
  obtain ⟨tail, rfl, -⟩ := hend.eq_cons lt_not_mem_templateTag
  obtain ⟨tail', rfl, htail'⟩ := hinner.eq_cons lt_not_mem_templateTag
  obtain ⟨rfl, -⟩ := List.cons.inj hsplit
  obtain ⟨post, rfl, -⟩ := append_of_append_lt htail' hsplit
  exact ⟨[], '<' :: tail', post, rfl, .nil, hinner, h.of_append htail'⟩

/-- The first character of an opening tag stands in front of the rest of it. -/
theorem ClosesTemplates.entered (h : (TemplatePlace.tag '<').Reads depth content)
    (hopen : (readTagName? templateTag (content ++ (close ++ rest))).isSome = true) :
    ClosesTemplates depth ('<' :: content) := by
  obtain ⟨attrs, inner, rfl, hgt, hinner⟩ := h
  obtain ⟨after, hafter⟩ := Option.isSome_iff_exists.mp hopen
  rw [List.append_assoc, List.cons_append] at hafter
  obtain ⟨selfClosing, htag, hslash⟩ := exists_openTag hgt hafter
  have hsplit : '<' :: (attrs ++ '>' :: inner) = '<' :: (attrs ++ ['>']) ++ inner := by simp
  rw [hsplit]
  cases selfClosing with
  | true =>
      rw [if_pos (hslash.mp rfl)] at hinner
      exact hinner.prepend fun ds hds => .selfClosed htag hds
  | false =>
      rw [if_neg fun hlast => nomatch hslash.mpr hlast] at hinner
      exact hinner.openTag htag

/-- A character stands in front at which the scan finds no tag. -/
theorem ClosesTemplates.passed {c : Char} (h : ClosesTemplates depth content)
    (hend : IsCloseTag templateTag close)
    (hnone : readCloseTag? templateTag (c :: (content ++ (close ++ rest))) = none)
    (hopen : ¬ (c = '<' ∧ (readTagName? templateTag (content ++ (close ++ rest))).isSome = true)) :
    ClosesTemplates depth (c :: content) := by
  refine h.text ?_ (not_isCloseTag_of_append (readCloseTag?_eq_none_iff.mp hnone))
  intro hinside
  obtain ⟨tail, rfl, -⟩ := hend.eq_cons lt_not_mem_templateTag
  have hwhole := hinside.append_lt (tail ++ rest)
  obtain ⟨name, behind, heq, -⟩ := id hinside
  obtain ⟨rfl, -⟩ := List.cons.inj heq
  rw [List.cons_append, opensTag_iff] at hwhole
  exact hopen ⟨rfl, hwhole⟩

end

/-- What is read of a template closes the templates that are open, and the tag that
ends it follows. -/
theorem closesTemplates_of_readTemplate? {place : TemplatePlace} {depth : Nat}
    {cs content rest : List Char} (h : readTemplate? place depth cs = some (content, rest)) :
    place.Reads depth content ∧
      ∃ close, cs = content ++ (close ++ rest) ∧ IsCloseTag templateTag close := by
  induction cs generalizing place depth content with
  | nil => cases h
  | cons c cs ih =>
      -- Whatever goes on with `cs` has one character less of the content.
      have step : ∀ {p d}, (readTemplate? p d cs).map (fun r => (c :: r.1, r.2)) =
          some (content, rest) → ∃ inner close, content = c :: inner ∧ p.Reads d inner ∧
            cs = inner ++ (close ++ rest) ∧ IsCloseTag templateTag close := by
        intro p d hmap
        obtain ⟨⟨inner, rest⟩, hread, heq⟩ := Option.map_eq_some_iff.mp hmap
        obtain ⟨rfl, rfl⟩ := Prod.mk.inj heq
        obtain ⟨hinner, close, hcs, hclose⟩ := ih hread
        exact ⟨inner, close, rfl, hinner, hcs, hclose⟩
      unfold readTemplate? at h
      dsimp only at h
      split at h
      · rename_i previous
        split at h
        · rename_i hc
          obtain ⟨inner, close, rfl, hinner, rfl, hclose⟩ := step h
          exact ⟨⟨[], inner, by rw [hc]; rfl, List.not_mem_nil, hinner⟩, close, rfl, hclose⟩
        · rename_i hc
          obtain ⟨_, close, rfl, ⟨attrs, inner, rfl, hgt, hinner⟩, rfl, hclose⟩ := step h
          refine ⟨⟨c :: attrs, inner, rfl, ?_, ?_⟩, close, rfl, hclose⟩
          · simp [hgt, Ne.symm hc]
          · simpa [List.getLast?_cons] using hinner
      · split at h
        · rename_i hclose
          obtain ⟨rfl, rfl⟩ := Prod.mk.inj (Option.some.inj h)
          exact ⟨.nil, readCloseTag?_eq_some_iff.mp hclose⟩
        · rename_i hclose
          obtain ⟨inner, close, rfl, hinner, rfl, hend⟩ := step h
          obtain ⟨nested, hsplit, hnested⟩ := readCloseTag?_eq_some_iff.mp hclose
          exact ⟨ClosesTemplates.closed hinner hend hnested hsplit, close, rfl, hend⟩
        · rename_i hnone
          split at h
          · rename_i hcond
            obtain ⟨hc, hopen⟩ := Bool.and_eq_true_iff.mp hcond
            obtain rfl := of_decide_eq_true hc
            obtain ⟨inner, close, rfl, hinner, rfl, hend⟩ := step h
            exact ⟨ClosesTemplates.entered hinner hopen, close, rfl, hend⟩
          · rename_i hcond
            obtain ⟨inner, close, rfl, hinner, rfl, hend⟩ := step h
            rw [Bool.and_eq_true_iff, decide_eq_true_iff] at hcond
            exact ⟨ClosesTemplates.passed hinner hend hnone hcond, close, rfl, hend⟩

/-! ## Blocks -/

theorem isContent_of_readContent? {tag : OpenTag} {inner content rest : List Char}
    (h : readContent? tag inner = some (content, rest)) :
    IsContent (String.ofList tag.tag) (String.ofList content) := by
  unfold IsContent
  rw [String.toList_ofList, String.toList_ofList]
  unfold readContent? at h
  split at h
  · obtain ⟨rfl, -⟩ := Prod.mk.inj (Option.some.inj h)
    split
    · exact .nil
    · exact noCloseTag_nil tag.tag
  · split at h
    · rename_i htemplate
      rw [if_pos htemplate]
      exact (closesTemplates_of_readTemplate? h).1
    · rename_i htemplate
      rw [if_neg htemplate]
      exact (noCloseTag_of_readRaw? h).1

/-- No value of an attribute holds a double quote. -/
def Block.QuoteFree (b : Block) : Prop := ∀ attr ∈ b.attrs, ∀ text ∈ attr.2, '"' ∉ text.toList

instance (b : Block) : Decidable b.QuoteFree :=
  inferInstanceAs (Decidable (∀ attr ∈ b.attrs, ∀ text ∈ attr.2, '"' ∉ text.toList))

/-- A block that was read can be written if no value holds a double quote. -/
theorem printable_of_readBlock {size : Nat} {c : Char} {cs rest : List Char} {b : Block}
    (hc : c.isAlpha = true) (h : readBlock size (c :: cs) = .ok (b, rest)) (hb : b.QuoteFree) :
    b.Printable := by
  rw [readBlock_eq] at h
  split at h
  · cases h
  rename_i tag inner hopen
  split at h
  · cases h
  rename_i content after hcontent
  obtain ⟨rfl, rfl⟩ := Prod.mk.inj (Except.ok.inj h)
  unfold readOpenTag at hopen
  dsimp only at hopen
  split at hopen
  · rename_i attrs selfClosing behind hattrs
    obtain ⟨rfl, rfl⟩ := Prod.mk.inj (Except.ok.inj hopen)
    have hnames := attrNames_readAttrs? .nil hattrs
    exact ⟨isBlockTag_canonicalTag hc cs, fun attr hattr => ⟨hnames.name attr hattr, hb attr hattr⟩,
      hnames.nodup, isContent_of_readContent? hcontent⟩
  · cases hopen

theorem printable_of_readBlocks {size : Nat} {cs : List Char} {b : Block}
    (h : b ∈ (readBlocks size cs).1) (hb : b.QuoteFree) : b.Printable := by
  fun_induction readBlocks size cs with
  | case1 | case3 => cases h
  | case2 _ _ _ ih | case4 _ _ _ _ _ _ _ ih | case5 _ _ _ _ _ ih => exact ih h
  | case6 => cases h
  | case7 c cs _ _ halpha b' rest hread _ blocks fault heq ih =>
      rcases List.mem_cons.mp h with rfl | h
      · obtain ⟨d, cs, rfl⟩ : ∃ d ds, cs = d :: ds := by
          cases cs with
          | nil => simp at halpha
          | cons d ds => exact ⟨d, ds, rfl⟩
        exact printable_of_readBlock (by simpa using halpha) hread hb
      · exact ih (heq ▸ h)

/-- What was scanned can be written if no value holds a double quote. -/
theorem printable_scan {source : String}
    (h : ∀ b ∈ (scan source).descriptor.blocks, b.QuoteFree) :
    (scan source).descriptor.Printable := by
  obtain ⟨hslots, hread⟩ := slotted_scan source
  exact ⟨hslots, fun b hb => printable_of_readBlocks (hread b hb) (h b hb)⟩

/-! ## Reprinting -/

/-- What the scanner reads without a double quote in a value survives printing: it
is read again without errors, as the same blocks in the same slots and order. -/
theorem scan_render_scan (source : String)
    (h : ∀ b ∈ (scan source).descriptor.blocks, b.QuoteFree) :
    (scan (scan source).descriptor.render).errors = [] ∧
      (scan (scan source).descriptor.render).descriptor.unplaced
        = (scan source).descriptor.unplaced := by
  have hscan := unplaced_scan_render (printable_scan h)
  exact ⟨List.map_eq_nil_iff.mp (congrArg Scan.errors hscan), congrArg Scan.descriptor hscan⟩

/-- A source with tags in odd cases, a template that is nested in another one, and
all ways to write an attribute. -/
def oddSource : String :=
  "a < b <SCRIPT lang = ts / setup x='1'>if (a </b) {}</script ><Template><template
/></TEMPLATE>"
    ++ "<style =scoped scoped/><i18n a=1 a=''>\x7b\x7d</I18N>"

theorem scan_render_scan_oddSource :
    (∀ b ∈ (scan oddSource).descriptor.blocks, b.QuoteFree) ∧
      (scan (scan oddSource).descriptor.render).errors = [] ∧
        (scan (scan oddSource).descriptor.render).descriptor.unplaced
          = (scan oddSource).descriptor.unplaced := by
  have h : ∀ b ∈ (scan oddSource).descriptor.blocks, b.QuoteFree := by decide +kernel
  exact ⟨h, scan_render_scan oddSource h⟩

/-- A double quote in a value ends the value when it is read again. What stands
behind it becomes another attribute here, and content from the next `>` on. -/
theorem scan_render_scan_quotedValue :
    let source := "<script setup generic='T extends \"a>b\"'>let x</script>\n"
    (scan (scan source).descriptor.render).descriptor.unplaced
      ≠ (scan source).descriptor.unplaced := by
  decide +kernel

end Recompose
