import Recompose.Proofs.ComponentReprint

/-!
# What is read of a file

`Reaches` goes over a text by what stands there: text without meaning, comments and
elements. `Ends` says where there is no way on. The two describe a scan completely
(`readBlocks_eq_iff`), and it ends with a fault exactly in front of an element that
has no end (`Ends.isSome_iff`). With the blocks that are filed, that is all a scan
gives (`scan_files_blocks`).
-/

namespace Recompose

/-! ## Elements -/

/-- No closing tag follows a content that an element could have. -/
def LacksCloseTag (tag : OpenTag) (inner : List Char) : Prop :=
  tag.selfClosing = false ∧ ∀ content close rest, inner = content ++ (close ++ rest) →
    IsContent (String.ofList tag.tag) (String.ofList content) → ¬ IsCloseTag tag.tag close

theorem readContent?_eq_some {tag : OpenTag} {inner content rest : List Char}
    (h : readContent? tag inner = some (content, rest)) :
    IsContent (String.ofList tag.tag) (String.ofList content) ∧
      (tag.selfClosing = true ∧ content = [] ∧ inner = rest ∨
        tag.selfClosing = false ∧ ∃ close, inner = content ++ (close ++ rest) ∧
          IsCloseTag tag.tag close) := by
  refine ⟨isContent_of_readContent? h, ?_⟩
  unfold readContent? at h
  split at h
  · rename_i hself
    obtain ⟨rfl, rfl⟩ := Prod.mk.inj (Option.some.inj h)
    exact .inl ⟨hself, rfl, rfl⟩
  rename_i hself
  refine .inr ⟨by simpa using hself, ?_⟩
  split at h
  · rename_i htag
    rw [tag_eq_templateTag htag]
    exact (closesTemplates_of_readTemplate? h).2
  · exact (noCloseTag_of_readRaw? h).2

/-- No content is read exactly where no closing tag follows one. -/
theorem readContent?_eq_none_iff {tag : OpenTag} (htag : '<' ∉ tag.tag) (inner : List Char) :
    readContent? tag inner = none ↔ LacksCloseTag tag inner := by
  constructor
  · intro hnone
    constructor
    · cases hself : tag.selfClosing with
      | false => rfl
      | true => simp [readContent?, hself] at hnone
    · rintro content close rest rfl hcontent hclose
      have hself : tag.selfClosing = false := by
        cases hself : tag.selfClosing with
        | false => rfl
        | true => simp [readContent?, hself] at hnone
      rw [readContent?_append hself htag hcontent hclose] at hnone
      cases hnone
  · rintro ⟨hself, hlacks⟩
    cases hread : readContent? tag inner with
    | none => rfl
    | some found =>
        obtain ⟨hcontent, ⟨hself', -⟩ | ⟨-, close, hinner, hclose⟩⟩ := readContent?_eq_some hread
        · rw [hself] at hself'
          cases hself'
        · exact absurd hclose (hlacks _ _ _ hinner hcontent)

theorem isTagNameChar_canonicalTag {raw : List Char} (h : ∀ c ∈ raw, isTagNameChar c = true) :
    ∀ c ∈ canonicalTag raw, isTagNameChar c = true := by
  unfold canonicalTag
  split
  · simpa using fun c hc => isTagNameChar_toLower (h c hc)
  · exact h

theorem lt_not_mem_of_readOpenTag {cs inner : List Char} {tag : OpenTag}
    (h : readOpenTag cs = .ok (tag, inner)) : '<' ∉ tag.tag := by
  intro hmem
  have htag : tag.tag = canonicalTag (cs.takeWhile isTagNameChar) := by
    unfold readOpenTag at h
    dsimp only at h
    split at h
    · obtain ⟨rfl, -⟩ := Prod.mk.inj (Except.ok.inj h)
      rfl
    · cases h
  rw [htag] at hmem
  have hname := isTagNameChar_canonicalTag (List.all_eq_true.mp List.all_takeWhile) _ hmem
  exact absurd hname (by decide)

/-- The element that begins behind a `<` has no end: its opening tag has none, or no
closing tag follows its content. -/
def LacksEnd (cs : List Char) : Prop :=
  (∃ tag, readOpenTag cs = .error tag) ∨
    ∃ tag inner, readOpenTag cs = .ok (tag, inner) ∧ LacksCloseTag tag inner

theorem lacksEnd_iff {cs : List Char} (size : Nat) :
    LacksEnd cs ↔ ∃ e, readBlock size cs = .error e := by
  rw [readBlock_eq, LacksEnd]
  cases hopen : readOpenTag cs with
  | error tag => simp
  | ok found =>
      obtain ⟨tag, inner⟩ := found
      have hnone := readContent?_eq_none_iff (lt_not_mem_of_readOpenTag hopen) inner
      cases hcontent : readContent? tag inner with
      | none => simpa [hcontent] using hnone.mp hcontent
      | some found =>
          have hends : ¬ LacksCloseTag tag inner := fun h => by
            rw [hnone.mpr h] at hcontent
            cases hcontent
          simpa [hcontent] using hends

/-! ## Reading on -/

def commentStart : List Char := "<!--".toList

def commentEnd : List Char := "-->".toList

theorem skipComment?_commentEnd (rest : List Char) :
    skipComment? (commentEnd ++ rest) = some rest := rfl

theorem skipComment?_cons {c : Char} {cs : List Char} (h : ¬ commentEnd <+: c :: cs) :
    skipComment? (c :: cs) = skipComment? cs := by
  rw [skipComment?]
  rintro rest rfl rfl
  exact h ⟨rest, rfl⟩

/-- What follows the first end of a comment. -/
theorem skipComment?_append {body : List Char} (h : ¬ commentEnd <:+: body ++ ['-', '-'])
    (rest : List Char) : skipComment? (body ++ (commentEnd ++ rest)) = some rest := by
  induction body with
  | nil => rfl
  | cons c body ih =>
      rw [List.cons_append, List.infix_cons_iff, not_or] at h
      rw [List.cons_append, skipComment?_cons ?_, ih h.2]
      intro hbegins
      have hsplit : c :: (body ++ (commentEnd ++ rest))
          = c :: (body ++ ['-', '-']) ++ '>' :: rest := by
        simp [commentEnd]
      rw [hsplit] at hbegins
      refine h.1 (List.prefix_of_prefix_length_le hbegins (List.prefix_append ..) ?_)
      simp [commentEnd]

theorem skipComment?_eq_none_iff {cs : List Char} :
    skipComment? cs = none ↔ ¬ commentEnd <:+: cs := by
  induction cs with
  | nil => simp [skipComment?, commentEnd]
  | cons c cs ih =>
      rw [List.infix_cons_iff]
      by_cases hbegins : commentEnd <+: c :: cs
      · obtain ⟨rest, hrest⟩ := id hbegins
        rw [← hrest, skipComment?_commentEnd]
        simp [hrest, hbegins]
      · rw [skipComment?_cons hbegins, ih]
        simp [hbegins]

theorem exists_body_of_skipComment? {cs rest : List Char} (h : skipComment? cs = some rest) :
    ∃ body, cs = body ++ (commentEnd ++ rest) ∧ ¬ commentEnd <:+: body ++ ['-', '-'] := by
  induction cs with
  | nil => cases h
  | cons c cs ih =>
      by_cases hbegins : commentEnd <+: c :: cs
      · obtain ⟨rest', hrest⟩ := id hbegins
        rw [← hrest, skipComment?_commentEnd] at h
        obtain rfl := Option.some.inj h
        exact ⟨[], hrest.symm, by decide⟩
      · rw [skipComment?_cons hbegins] at h
        obtain ⟨body, rfl, hbody⟩ := ih h
        refine ⟨c :: body, rfl, ?_⟩
        rw [List.cons_append, List.infix_cons_iff, not_or]
        refine ⟨fun hinside => hbegins ?_, hbody⟩
        refine hinside.trans ⟨'>' :: rest, ?_⟩
        simp [commentEnd]

/-- The scan comes from one place of a text of `size` bytes to another one, and
reads these blocks on the way. -/
inductive Reaches (size : Nat) : List Char → List Block → List Char → Prop where
  | here (cs : List Char) : Reaches size cs [] cs
  | text {c : Char} {cs rest : List Char} {bs : List Block}
      (hcomment : ¬ commentStart <+: c :: cs) (helement : ¬ BeginsElement (c :: cs))
      (h : Reaches size cs bs rest) : Reaches size (c :: cs) bs rest
  /-- A comment goes to the first place that ends one. -/
  | comment {body cs rest : List Char} {bs : List Block}
      (hbody : ¬ commentEnd <:+: body ++ ['-', '-']) (h : Reaches size cs bs rest) :
      Reaches size (commentStart ++ (body ++ (commentEnd ++ cs))) bs rest
  | element {cs after rest : List Char} {b : Block} {bs : List Block}
      (hbegins : BeginsElement ('<' :: cs)) (hread : readBlock size cs = .ok (b, after))
      (h : Reaches size after bs rest) : Reaches size ('<' :: cs) (b :: bs) rest

theorem commentStart_prefix_iff {c : Char} {cs : List Char} :
    commentStart <+: c :: cs ↔ c = '<' ∧ cs.take 3 = ['!', '-', '-'] := by
  have hstart : commentStart = '<' :: ['!', '-', '-'] := rfl
  rw [hstart, List.cons_prefix_cons, List.prefix_iff_eq_take, eq_comm]
  constructor
  · rintro ⟨hc, htake⟩
    exact ⟨hc, htake.symm⟩
  · rintro ⟨hc, htake⟩
    exact ⟨hc, htake.symm⟩

/-- A text that starts with a comment, in front of what stands in it. -/
theorem eq_commentStart_append {cs : List Char} (h : cs.take 3 = ['!', '-', '-']) :
    '<' :: cs = commentStart ++ cs.drop 3 := by
  have hcs := List.take_append_drop 3 cs
  rw [h] at hcs
  rw [← hcs]
  rfl

section

variable {size : Nat} {c : Char} {cs rest : List Char}

theorem readBlocks_text (hcomment : ¬ commentStart <+: c :: cs)
    (helement : ¬ BeginsElement (c :: cs)) : readBlocks size (c :: cs) = readBlocks size cs := by
  rw [readBlocks]
  by_cases hc : c = '<'
  · subst hc
    rw [commentStart_prefix_iff] at hcomment
    rw [beginsElement_iff] at helement
    have htake : ¬ cs.take 3 = ['!', '-', '-'] := fun htake => hcomment ⟨rfl, htake⟩
    simp [htake, helement]
  · simp [hc]

theorem readBlocks_commentStart (cs : List Char) :
    readBlocks size (commentStart ++ cs) = match skipComment? cs with
      | none => ([], none)
      | some rest => readBlocks size rest := by
  have hstart : commentStart ++ cs = '<' :: '!' :: '-' :: '-' :: cs := rfl
  rw [hstart, readBlocks, if_neg (fun hne => hne rfl), if_pos (by simp)]
  split
  · rename_i hskip
    have hskip : skipComment? cs = none := hskip
    simp only [hskip]
  · rename_i rest hskip
    have hskip : skipComment? cs = some rest := hskip
    simp only [hskip]

end

/-- The scan of a text is the scan of a place that it reaches, behind the blocks
read on the way. -/
theorem Reaches.readBlocks_eq {size : Nat} {cs rest : List Char} {bs : List Block}
    (h : Reaches size cs bs rest) :
    readBlocks size cs = (bs ++ (readBlocks size rest).1, (readBlocks size rest).2) := by
  induction h with
  | here cs => rfl
  | text hcomment helement h ih => rw [readBlocks_text hcomment helement, ih]
  | comment hbody h ih => simp only [readBlocks_commentStart, skipComment?_append hbody, ih]
  | element hbegins hread h ih =>
      simp only [readBlocks_element hbegins, hread, ih, List.cons_append]

/-- Where a scan ends: at the end of the text, in a comment that has no end, or in
front of an element that has none. -/
inductive Ends (size : Nat) : List Char → Option BlockError → Prop where
  | text : Ends size [] none
  | comment {body : List Char} (hbody : ¬ commentEnd <:+: body) :
      Ends size (commentStart ++ body) none
  | element {cs : List Char} {e : BlockError} (hbegins : BeginsElement ('<' :: cs))
      (hread : readBlock size cs = .error e) : Ends size ('<' :: cs) (some e)

theorem reaches_readBlocks (size : Nat) (cs : List Char) :
    ∃ rest, Reaches size cs (readBlocks size cs).1 rest
      ∧ Ends size rest (readBlocks size cs).2 := by
  fun_induction readBlocks size cs with
  | case1 => exact ⟨[], .here _, .text⟩
  | case2 c cs hc ih =>
      obtain ⟨rest, hreaches, hends⟩ := ih
      refine ⟨rest, .text ?_ ?_ hreaches, hends⟩
      · exact fun h => hc (commentStart_prefix_iff.mp h).1
      · rintro ⟨d, more, hcs, -⟩
        exact hc (List.cons.inj hcs).1
  | case3 c cs hc htake hskip =>
      obtain rfl : c = '<' := Decidable.not_not.mp hc
      rw [eq_commentStart_append htake]
      exact ⟨_, .here _, .comment (skipComment?_eq_none_iff.mp hskip)⟩
  | case4 c cs hc htake after hskip hlt ih =>
      obtain rfl : c = '<' := Decidable.not_not.mp hc
      obtain ⟨rest, hreaches, hends⟩ := ih
      obtain ⟨body, hcs, hbody⟩ := exists_body_of_skipComment? hskip
      rw [eq_commentStart_append htake, hcs]
      exact ⟨rest, .comment hbody hreaches, hends⟩
  | case5 c cs hc htake halpha ih =>
      obtain rfl : c = '<' := Decidable.not_not.mp hc
      obtain ⟨rest, hreaches, hends⟩ := ih
      refine ⟨rest, .text ?_ ?_ hreaches, hends⟩
      · exact fun h => htake (commentStart_prefix_iff.mp h).2
      · rw [beginsElement_iff]
        simpa using halpha
  | case6 c cs hc htake halpha e hread =>
      obtain rfl : c = '<' := Decidable.not_not.mp hc
      exact ⟨_, .here _, .element (beginsElement_iff.mpr (by simpa using halpha)) hread⟩
  | case7 c cs hc htake halpha b after hread hlt blocks fault heq ih =>
      obtain rfl : c = '<' := Decidable.not_not.mp hc
      obtain ⟨rest, hreaches, hends⟩ := ih
      rw [heq] at hreaches hends
      exact ⟨rest, .element (beginsElement_iff.mpr (by simpa using halpha)) hread hreaches, hends⟩

/-- What is read of a text is what a scan reads on the way to a place where it
ends. -/
theorem readBlocks_eq_iff {size : Nat} {cs : List Char} {bs : List Block}
    {fault : Option BlockError} :
    readBlocks size cs = (bs, fault)
      ↔ ∃ rest, Reaches size cs bs rest ∧ Ends size rest fault := by
  constructor
  · intro h
    have hreaches := reaches_readBlocks size cs
    rwa [h] at hreaches
  · rintro ⟨rest, hreaches, hends⟩
    have hrest : readBlocks size rest = ([], fault) := by
      cases hends with
      | text => rw [readBlocks]
      | comment hbody => simp only [readBlocks_commentStart, skipComment?_eq_none_iff.mpr hbody]
      | element hbegins hread => simp only [readBlocks_element hbegins, hread]
    rw [hreaches.readBlocks_eq, hrest, List.append_nil]

/-- A scan ends with a fault exactly where an element begins that has no end. -/
theorem Ends.isSome_iff {size : Nat} {rest : List Char} {fault : Option BlockError}
    (h : Ends size rest fault) :
    fault.isSome = true
      ↔ ∃ inner, rest = '<' :: inner ∧ BeginsElement rest ∧ LacksEnd inner := by
  cases h with
  | text => simp
  | comment hbody =>
      rename_i body
      simp only [Option.isSome_none, Bool.false_eq_true, false_iff]
      rintro ⟨inner, hrest, hbegins, -⟩
      rw [hrest] at hbegins
      obtain rfl : '!' :: '-' :: '-' :: body = inner := (List.cons.inj hrest).2
      exact hbegins.not_comment rfl
  | element hbegins hread =>
      simp only [Option.isSome_some, true_iff]
      exact ⟨_, rfl, hbegins, (lacksEnd_iff size).mpr ⟨_, hread⟩⟩

/-- The fault at the end of a scan is not about where a block is filed. -/
theorem Ends.fault_eq {size : Nat} {rest : List Char} {e : BlockError}
    (h : Ends size rest (some e)) :
    ∃ tag, e.fault = .unclosed tag ∨ e.fault = .unterminated tag := by
  cases h with
  | element _ hread =>
      rw [readBlock_eq] at hread
      split at hread
      · obtain rfl := Except.error.inj hread
        exact ⟨_, .inr rfl⟩
      · split at hread
        · obtain rfl := Except.error.inj hread
          exact ⟨_, .inl rfl⟩
        · cases hread

/-! ## The whole file -/

/-- No block is lost. The descriptor holds the first block of each kind that may
stand once and all other blocks in order. The errors are one for each block that is
left, in order, and then at most one for an element without an end, which is there
exactly if the scan came to such an element. -/
theorem scan_files_blocks (source : String) :
    let size := byteSize source.toList
    let bs := blocksRead source
    let d := (scan source).descriptor
    d.template = bs.find? (fun b => b.tag = "template") ∧
    d.script = bs.find? (fun b => b.tag = "script" && !b.isSetup) ∧
    d.scriptSetup = bs.find? (fun b => b.tag = "script" && b.isSetup) ∧
    d.styles = bs.filter (fun b => b.tag = "style") ∧
    d.customBlocks = bs.filter (fun b => b.tag ∉ knownTags) ∧
    (repeatedBlocks bs).Sublist bs ∧ (d.blocks ++ repeatedBlocks bs).Perm bs ∧
    ∃ rest fault, Reaches size source.toList bs rest ∧ Ends size rest fault ∧
      (scan source).errors = (repeatedBlocks bs).map (fun b =>
          ⟨.duplicate ("<" ++ b.tag ++ (if b.isSetup then " setup" else "") ++ ">"), b.span⟩)
        ++ fault.toList ∧
      (∀ e ∈ fault, ∃ tag, e.fault = .unclosed tag ∨ e.fault = .unterminated tag) ∧
      (fault.isSome = true
        ↔ ∃ inner, rest = '<' :: inner ∧ BeginsElement rest ∧ LacksEnd inner) := by
  intro size bs d
  have hd : d = (filedBlocks bs).descriptor := by
    rw [show d = (scan source).descriptor from rfl, scan_eq]
  have hplace : ∀ (p : Place) (q : Block → Bool), (∀ b : Block, b.place = p ↔ q b = true) →
      (fun b : Block => decide (b.place = p)) = q := by
    intro p q h
    funext b
    rw [Bool.eq_iff_iff, decide_eq_true_iff, h]
  rw [hd]
  refine ⟨?_, ?_, ?_, ?_, ?_, repeatedBlocks_sublist bs, perm_filedBlocks bs, ?_⟩
  · exact congrArg bs.find? (hplace _ _ fun b => by simp [Block.place_eq_template_iff])
  · exact congrArg bs.find? (hplace _ _ fun b => by simp [Block.place_eq_script_iff])
  · exact congrArg bs.find? (hplace _ _ fun b => by simp [Block.place_eq_scriptSetup_iff])
  · exact congrArg bs.filter (hplace _ _ fun b => by simp [Block.place_eq_styles_iff])
  · exact congrArg bs.filter (hplace _ _ fun b => by simp [Block.place_eq_customBlocks_iff])
  · obtain ⟨rest, hreaches, hends⟩ :=
      readBlocks_eq_iff.mp (Prod.eta (readBlocks size source.toList)).symm
    refine ⟨rest, _, hreaches, hends, ?_, ?_, hends.isSome_iff⟩
    · rw [scan_eq]
      rfl
    · intro e he
      rw [Option.mem_def.mp he] at hends
      exact hends.fault_eq

end Recompose
