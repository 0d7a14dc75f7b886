import Recompose.Component.Scanner

/-!
# Reading tags and contents

What the readers of component files make of text that has a known shape. Tags
are described by the text they consist of: `IsCloseTag` and `IsOpenTag` say
which texts are tags of elements of a name, `NoCloseTag` that a raw content
holds no closing tag, and `BalancedTemplates` that the template tags of a
content match up.

The readers look ahead across the end of a content, into the tag that closes
it. `append_of_append_lt` is why that does no harm: a tag holds `<` as its first
character only, so one that starts inside the content cannot reach into a text
that begins with `<`.
-/

namespace Recompose

/-! ## Characters -/

/-- Only letters become letters in lower case. -/
theorem eq_of_toLower {c d : Char} (h : c.toLower = d) (hd : d.isLower = false) : c = d := by
  unfold Char.toLower at h
  split at h
  · rename_i hc
    have hval := congrArg (fun e : Char => e.val.toNat) h
    have hlo : 65 ≤ c.val.toNat := hc.1
    have hhi : c.val.toNat ≤ 90 := hc.2
    simp only [Char.reduceVal, UInt32.toNat_add, UInt32.toNat_sub, UInt32.reduceToNat] at hval
    have hfirst : 'a'.val ≤ d.val := by
      simp only [UInt32.le_iff_toNat_le, Char.reduceVal, UInt32.reduceToNat]
      omega
    have hlast : d.val ≤ 'z'.val := by
      simp only [UInt32.le_iff_toNat_le, Char.reduceVal, UInt32.reduceToNat]
      omega
    have hlower : d.isLower = true :=
      Bool.and_eq_true_iff.mpr ⟨decide_eq_true hfirst, decide_eq_true hlast⟩
    rw [hd] at hlower
    cases hlower
  · exact h

/-- The first character, if there is one, is outside of a class. -/
def HeadNot (p : Char → Bool) (cs : List Char) : Prop := ∀ c ∈ cs.head?, p c = false

@[simp] theorem headNot_cons {p : Char → Bool} {c : Char} {cs : List Char} :
    HeadNot p (c :: cs) ↔ p c = false := by
  simp [HeadNot]

theorem HeadNot.takeWhile {p : Char → Bool} {cs : List Char} (h : HeadNot p cs) :
    cs.takeWhile p = [] := by
  cases cs with
  | nil => rfl
  | cons c cs => simp [headNot_cons.mp h]

theorem HeadNot.dropWhile {p : Char → Bool} {cs : List Char} (h : HeadNot p cs) :
    cs.dropWhile p = cs := by
  cases cs with
  | nil => rfl
  | cons c cs => simp [headNot_cons.mp h]

/-- A text that is all of a class, in front of one that begins outside of it. -/
theorem takeWhile_append_headNot {p : Char → Bool} {xs ys : List Char} (hxs : ∀ c ∈ xs, p c = true)
    (hys : HeadNot p ys) : (xs ++ ys).takeWhile p = xs := by
  rw [List.takeWhile_append_of_pos hxs, hys.takeWhile, List.append_nil]

theorem dropWhile_append_headNot {p : Char → Bool} {xs ys : List Char} (hxs : ∀ c ∈ xs, p c = true)
    (hys : HeadNot p ys) : (xs ++ ys).dropWhile p = ys := by
  rw [List.dropWhile_append_of_pos hxs, hys.dropWhile]

/-! ## Tag names -/

theorem sameIgnoringCase_iff {a b : List Char} :
    sameIgnoringCase a b = true ↔ a.map Char.toLower = b.map Char.toLower := by
  simp [sameIgnoringCase]

@[simp] theorem sameIgnoringCase_self (a : List Char) : sameIgnoringCase a a = true :=
  sameIgnoringCase_iff.mpr rfl

theorem length_of_sameIgnoringCase {a b : List Char} (h : sameIgnoringCase a b = true) :
    a.length = b.length := by
  simpa using congrArg List.length (sameIgnoringCase_iff.mp h)

/-- A name that is written like the name of a tag holds no other punctuation. -/
theorem not_mem_of_sameIgnoringCase {name tag : List Char} {d : Char}
    (h : sameIgnoringCase name tag = true) (htag : d ∉ tag) (hlower : d.isLower = false)
    (hd : d.toLower = d) : d ∉ name := by
  intro hmem
  have hlow : d ∈ tag.map Char.toLower := by
    rw [← sameIgnoringCase_iff.mp h]
    exact List.mem_map.mpr ⟨d, hmem, hd⟩
  obtain ⟨c, hc, hcl⟩ := List.mem_map.mp hlow
  exact htag (eq_of_toLower hcl hlower ▸ hc)

theorem lt_not_mem_of_sameIgnoringCase {name tag : List Char}
    (h : sameIgnoringCase name tag = true) (htag : '<' ∉ tag) : '<' ∉ name :=
  not_mem_of_sameIgnoringCase h htag rfl rfl

theorem readTagName?_eq_some_iff {tag cs rest : List Char} :
    readTagName? tag cs = some rest ↔
      ∃ name, cs = name ++ rest ∧ sameIgnoringCase name tag = true
        ∧ HeadNot isTagNameChar rest := by
  have hhead : ∀ ds : List Char,
      (!(ds.head?.any isTagNameChar)) = true ↔ HeadNot isTagNameChar ds := by
    intro ds
    cases ds <;> simp [HeadNot]
  unfold readTagName?
  simp only
  constructor
  · intro h
    split at h
    · rename_i hcond
      obtain rfl := Option.some.inj h
      rw [Bool.and_eq_true, hhead] at hcond
      exact ⟨cs.take tag.length, (List.take_append_drop ..).symm, hcond.1, hcond.2⟩
    · cases h
  · rintro ⟨name, rfl, hname, hrest⟩
    rw [← length_of_sameIgnoringCase hname, List.take_left, List.drop_left, if_pos]
    rw [Bool.and_eq_true, hhead]
    exact ⟨hname, hrest⟩

/-! ## Closing tags -/

/-- A closing tag of elements of a name: blanks may stand behind the name. -/
def IsCloseTag (tag cs : List Char) : Prop :=
  ∃ name blanks, cs = '<' :: '/' :: (name ++ (blanks ++ ['>']))
    ∧ sameIgnoringCase name tag = true ∧ ∀ c ∈ blanks, isMarkupBlank c = true

theorem isMarkupBlank_ne {c d : Char} (hc : isMarkupBlank c = true) (hd : isMarkupBlank d = false) :
    c ≠ d := by
  rintro rfl
  rw [hc] at hd
  cases hd

theorem isTagNameChar_of_blank {c : Char} (h : isMarkupBlank c = true) : isTagNameChar c = false := by
  simp only [isMarkupBlank, Bool.or_eq_true, decide_eq_true_eq] at h
  rcases h with (((rfl | rfl) | rfl) | rfl) | rfl <;> decide

theorem readCloseTag?_eq_some_iff {tag cs rest : List Char} :
    readCloseTag? tag cs = some rest ↔ ∃ close, cs = close ++ rest ∧ IsCloseTag tag close := by
  constructor
  · intro h
    unfold readCloseTag? at h
    split at h
    · rename_i cs'
      split at h
      · rename_i rest' hmap
        obtain rfl := Option.some.inj h
        obtain ⟨after, hname, hdrop⟩ := Option.map_eq_some_iff.mp hmap
        obtain ⟨name, rfl, hsame, -⟩ := readTagName?_eq_some_iff.mp hname
        refine ⟨'<' :: '/' :: (name ++ (after.takeWhile isMarkupBlank ++ ['>'])), ?_,
          name, after.takeWhile isMarkupBlank, rfl, hsame, ?_⟩
        · have hsplit : after.takeWhile isMarkupBlank ++ '>' :: rest' = after := by
            rw [← hdrop, List.takeWhile_append_dropWhile]
          simp [hsplit]
        · intro c hc
          exact List.all_eq_true.mp (List.all_takeWhile ..) c hc
      · cases h
    · cases h
  · rintro ⟨close, rfl, name, blanks, rfl, hname, hblanks⟩
    have hhead : HeadNot isTagNameChar (blanks ++ '>' :: rest) := by
      cases blanks with
      | nil => exact headNot_cons.mpr (by decide)
      | cons c blanks =>
          exact headNot_cons.mpr (isTagNameChar_of_blank (hblanks c (List.mem_cons_self ..)))
    have hread : readTagName? tag (name ++ (blanks ++ '>' :: rest))
        = some (blanks ++ '>' :: rest) :=
      readTagName?_eq_some_iff.mpr ⟨name, rfl, hname, hhead⟩
    have hdrop : (blanks ++ '>' :: rest).dropWhile isMarkupBlank = '>' :: rest :=
      dropWhile_append_headNot hblanks (headNot_cons.mpr (by decide))
    simp [readCloseTag?, hread, hdrop]

theorem IsCloseTag.eq_cons {tag close : List Char} (h : IsCloseTag tag close) (htag : '<' ∉ tag) :
    ∃ tail, close = '<' :: tail ∧ '<' ∉ tail := by
  obtain ⟨name, blanks, rfl, hname, hblanks⟩ := h
  refine ⟨_, rfl, ?_⟩
  have hn := lt_not_mem_of_sameIgnoringCase hname htag
  have hb : '<' ∉ blanks := fun hmem => isMarkupBlank_ne (hblanks _ hmem) (by decide) rfl
  simp [hn, hb]

/-- A text that holds `<` as its first character only, and starts in front of
another `<`, ends in front of it, too. -/
theorem append_of_append_lt {cs more tail rest : List Char} {c : Char} (htail : '<' ∉ tail)
    (h : c :: cs ++ '<' :: more = c :: tail ++ rest) :
    ∃ post, cs = tail ++ post ∧ rest = post ++ '<' :: more := by
  rcases List.append_eq_append_iff.mp (List.cons.inj h).2 with ⟨mid, hmid, hrest⟩ | ⟨mid, hmid, hrest⟩
  · cases mid with
    | nil => exact ⟨[], by simpa using hmid.symm, by simpa using hrest.symm⟩
    | cons d mid =>
        obtain ⟨rfl, -⟩ := List.cons.inj hrest
        exact absurd (hmid ▸ List.mem_append_right _ (List.mem_cons_self ..)) htail
  · exact ⟨mid, hmid, hrest⟩

/-! ## Raw contents -/

/-- No closing tag of elements of a name stands in a text. -/
def NoCloseTag (tag cs : List Char) : Prop :=
  ∀ pre close post, cs = pre ++ (close ++ post) → ¬ IsCloseTag tag close

theorem NoCloseTag.tail {tag cs : List Char} {c : Char} (h : NoCloseTag tag (c :: cs)) :
    NoCloseTag tag cs := by
  intro pre close post hcs
  exact h (c :: pre) close post (by rw [hcs]; rfl)

/-- Where no closing tag begins, none is read. -/
theorem readCloseTag?_eq_none_iff {tag cs : List Char} :
    readCloseTag? tag cs = none ↔ ∀ close post, cs = close ++ post → ¬ IsCloseTag tag close := by
  rw [Option.eq_none_iff_forall_ne_some]
  constructor
  · intro h close post hcs hclose
    exact h post (readCloseTag?_eq_some_iff.mpr ⟨close, hcs, hclose⟩)
  · intro h rest hrest
    obtain ⟨close, hcs, hclose⟩ := readCloseTag?_eq_some_iff.mp hrest
    exact h close rest hcs hclose

theorem noCloseTag_nil (tag : List Char) : NoCloseTag tag [] := by
  rintro pre close post hcs ⟨name, blanks, rfl, -⟩
  cases pre <;> cases hcs

theorem noCloseTag_cons {tag cs : List Char} {c : Char} :
    NoCloseTag tag (c :: cs) ↔ readCloseTag? tag (c :: cs) = none ∧ NoCloseTag tag cs := by
  rw [readCloseTag?_eq_none_iff]
  constructor
  · intro h
    exact ⟨fun close post hcs => h [] close post hcs, h.tail⟩
  · rintro ⟨hhere, htail⟩ pre close post hcs
    cases pre with
    | nil => exact hhere close post hcs
    | cons d pre => exact htail pre close post (List.cons.inj hcs).2

instance decidableNoCloseTag (tag : List Char) : (cs : List Char) → Decidable (NoCloseTag tag cs)
  | [] => isTrue (noCloseTag_nil tag)
  | c :: cs =>
    have := decidableNoCloseTag tag cs
    decidable_of_iff (readCloseTag? tag (c :: cs) = none ∧ NoCloseTag tag cs) noCloseTag_cons.symm

/-- Looking across the end of a content finds no closing tag that starts inside
it. -/
theorem readCloseTag?_append_lt {tag cs more : List Char} {c : Char} (htag : '<' ∉ tag)
    (h : ∀ close post, c :: cs = close ++ post → ¬ IsCloseTag tag close) :
    readCloseTag? tag (c :: cs ++ '<' :: more) = none := by
  rw [readCloseTag?_eq_none_iff]
  intro close rest happ hclose
  obtain ⟨tail, rfl, htail⟩ := hclose.eq_cons htag
  obtain ⟨rfl, -⟩ := List.cons.inj happ
  obtain ⟨post, rfl, -⟩ := append_of_append_lt htail happ
  exact h ('<' :: tail) post rfl hclose

theorem readRaw?_of_closeTag {tag close rest : List Char} (h : IsCloseTag tag close) :
    readRaw? tag (close ++ rest) = some ([], rest) := by
  have hread : readCloseTag? tag (close ++ rest) = some rest :=
    readCloseTag?_eq_some_iff.mpr ⟨close, rfl, h⟩
  obtain ⟨name, blanks, rfl, -⟩ := h
  rw [List.cons_append] at hread ⊢
  rw [readRaw?, hread]

/-- A raw content ends exactly in front of the tag that closes it. -/
theorem readRaw?_append {tag content close rest : List Char} (htag : '<' ∉ tag)
    (hcontent : NoCloseTag tag content) (hclose : IsCloseTag tag close) :
    readRaw? tag (content ++ (close ++ rest)) = some (content, rest) := by
  obtain ⟨tail, rfl, -⟩ := hclose.eq_cons htag
  induction content with
  | nil => exact readRaw?_of_closeTag hclose
  | cons c content ih =>
      have hnone : readCloseTag? tag (c :: content ++ '<' :: (tail ++ rest)) = none :=
        readCloseTag?_append_lt htag fun close post h => hcontent [] close post h
      rw [List.cons_append, readRaw?]
      rw [List.cons_append] at hnone
      simp only [List.cons_append] at ih ⊢
      rw [hnone, ih hcontent.tail]
      rfl

/-! ## Templates -/

/-- The name of the element whose contents nest. -/
def templateTag : List Char := "template".toList

theorem lt_not_mem_templateTag : '<' ∉ templateTag := by decide

/-- An opening tag of elements of a name. It runs up to its first `>`, and
closes itself when a slash stands in front of that. -/
def IsOpenTag (tag : List Char) (selfClosing : Bool) (cs : List Char) : Prop :=
  ∃ name attrs, cs = '<' :: (name ++ (attrs ++ ['>'])) ∧ sameIgnoringCase name tag = true
    ∧ HeadNot isTagNameChar attrs ∧ '>' ∉ attrs ∧ selfClosing = (attrs.getLast? == some '/')

/-- An opening tag begins here, whether or not it ends. -/
def OpensTag (tag cs : List Char) : Prop :=
  ∃ name rest, cs = '<' :: (name ++ rest) ∧ sameIgnoringCase name tag = true
    ∧ HeadNot isTagNameChar rest

/-- The template tags of a text match up: nested templates close themselves or
are closed, and no other template tag begins anywhere. -/
inductive BalancedTemplates : List Char → Prop where
  | nil : BalancedTemplates []
  | text {c : Char} {cs : List Char} (hopen : ¬ OpensTag templateTag (c :: cs))
      (hclose : ∀ close post, c :: cs = close ++ post → ¬ IsCloseTag templateTag close)
      (hcs : BalancedTemplates cs) : BalancedTemplates (c :: cs)
  | selfClosed {tag rest : List Char} (htag : IsOpenTag templateTag true tag)
      (hrest : BalancedTemplates rest) : BalancedTemplates (tag ++ rest)
  | nested {tag inner close rest : List Char} (htag : IsOpenTag templateTag false tag)
      (hinner : BalancedTemplates inner) (hclose : IsCloseTag templateTag close)
      (hrest : BalancedTemplates rest) :
      BalancedTemplates (tag ++ (inner ++ (close ++ rest)))

/-- Text without `<` in front of balanced text. -/
theorem BalancedTemplates.plain {cs rest : List Char} (h : '<' ∉ cs) (hrest : BalancedTemplates rest) :
    BalancedTemplates (cs ++ rest) := by
  induction cs with
  | nil => exact hrest
  | cons c cs ih =>
      have hc : c ≠ '<' := fun hc => h (hc ▸ List.mem_cons_self ..)
      refine .text ?_ ?_ (ih fun hmem => h (List.mem_cons_of_mem _ hmem))
      · rintro ⟨name, after, heq, -⟩
        exact hc (List.cons.inj heq).1
      · rintro close post heq ⟨name, blanks, rfl, -⟩
        exact hc (List.cons.inj heq).1

/-- More content in front of what was read. -/
def prependContent (cs : List Char) (r : Option (List Char × List Char)) :
    Option (List Char × List Char) :=
  r.map fun p => (cs ++ p.1, p.2)

@[simp] theorem prependContent_nil (r : Option (List Char × List Char)) :
    prependContent [] r = r := by
  cases r <;> rfl

@[simp] theorem prependContent_prependContent (xs ys : List Char)
    (r : Option (List Char × List Char)) :
    prependContent xs (prependContent ys r) = prependContent (xs ++ ys) r := by
  cases r <;> simp [prependContent]

theorem map_cons_eq_prependContent (c : Char) (r : Option (List Char × List Char)) :
    (r.map fun (content, rest) => (c :: content, rest)) = prependContent [c] r := rfl

theorem opensTag_iff {tag cs : List Char} :
    OpensTag tag ('<' :: cs) ↔ (readTagName? tag cs).isSome = true := by
  rw [Option.isSome_iff_exists]
  constructor
  · rintro ⟨name, rest, hcs, hname, hrest⟩
    exact ⟨rest, readTagName?_eq_some_iff.mpr ⟨name, (List.cons.inj hcs).2, hname, hrest⟩⟩
  · rintro ⟨rest, hread⟩
    obtain ⟨name, rfl, hname, hrest⟩ := readTagName?_eq_some_iff.mp hread
    exact ⟨name, rest, rfl, hname, hrest⟩

/-- Looking across the end of a content finds no opening tag that starts inside
it. -/
theorem not_opensTag_append_lt {tag cs more : List Char} {c : Char} (htag : '<' ∉ tag)
    (h : ¬ OpensTag tag (c :: cs)) : ¬ OpensTag tag (c :: cs ++ '<' :: more) := by
  rintro ⟨name, rest, happ, hname, hrest⟩
  obtain ⟨rfl, -⟩ := List.cons.inj happ
  obtain ⟨post, rfl, rfl⟩ := append_of_append_lt (lt_not_mem_of_sameIgnoringCase hname htag) happ
  refine h ⟨name, post, rfl, hname, ?_⟩
  intro d hd
  refine hrest d ?_
  cases post with
  | nil => cases hd
  | cons e post => exact hd

/-- A character at which no template tag begins is content. -/
theorem readTemplate?_text {depth : Nat} {c : Char} {cs : List Char}
    (hclose : readCloseTag? templateTag (c :: cs) = none) (hopen : ¬ OpensTag templateTag (c :: cs)) :
    readTemplate? .content depth (c :: cs)
      = prependContent [c] (readTemplate? .content depth cs) := by
  have hcond : (c = '<' && (readTagName? templateTag cs).isSome) = false := by
    by_cases hc : c = '<'
    · rw [hc, opensTag_iff, Bool.not_eq_true] at hopen
      rw [hopen, Bool.and_false]
    · rw [decide_eq_false hc, Bool.false_and]
  unfold templateTag at hclose hcond
  rw [readTemplate?, hcond, if_neg Bool.false_ne_true]
  · rfl
  · exact hclose

/-- Where a template tag opens, the scan goes on inside of it. -/
theorem readTemplate?_enter {depth : Nat} {cs : List Char}
    (hclose : readCloseTag? templateTag ('<' :: cs) = none)
    (hopen : OpensTag templateTag ('<' :: cs)) :
    readTemplate? .content depth ('<' :: cs)
      = prependContent ['<'] (readTemplate? (.tag '<') depth cs) := by
  have hcond := opensTag_iff.mp hopen
  unfold templateTag at hclose hcond
  rw [readTemplate?, hcond, if_pos (by rfl)]
  · rfl
  · exact hclose

/-- Characters other than `<` are content. -/
theorem readTemplate?_plain {depth : Nat} {cs more : List Char} (h : '<' ∉ cs) :
    readTemplate? .content depth (cs ++ more)
      = prependContent cs (readTemplate? .content depth more) := by
  induction cs with
  | nil => simp
  | cons c cs ih =>
      have hc : c ≠ '<' := fun hc => h (by simp [hc])
      have hcs : '<' ∉ cs := fun hmem => h (List.mem_cons_of_mem _ hmem)
      have hclose : readCloseTag? templateTag (c :: (cs ++ more)) = none := by
        unfold readCloseTag?
        split
        · rename_i heq
          exact absurd (List.cons.inj heq).1 hc
        · rfl
      have hopen : ¬ OpensTag templateTag (c :: (cs ++ more)) := by
        rintro ⟨name, rest, heq, -⟩
        exact hc (List.cons.inj heq).1
      rw [List.cons_append, readTemplate?_text hclose hopen, ih hcs, prependContent_prependContent]
      rfl

/-- Inside an opening tag, everything up to `>` belongs to it. -/
theorem readTemplate?_tag {depth : Nat} {previous : Char} {cs more : List Char} (h : '>' ∉ cs) :
    readTemplate? (.tag previous) depth (cs ++ '>' :: more)
      = prependContent (cs ++ ['>'])
          (readTemplate? .content
            (if cs.getLast?.getD previous = '/' then depth else depth + 1) more) := by
  induction cs generalizing previous with
  | nil =>
      rw [List.nil_append, readTemplate?]
      simp only [if_true]
      rfl
  | cons c cs ih =>
      have hc : c ≠ '>' := fun hc => h (by simp [hc])
      have hcs : '>' ∉ cs := fun hmem => h (List.mem_cons_of_mem _ hmem)
      rw [List.cons_append, readTemplate?]
      simp only [if_neg hc, ih hcs, List.getLast?_cons, Option.getD_some]
      rw [map_cons_eq_prependContent, prependContent_prependContent]
      rfl

/-- Behind a name, a slash comes last only if it stands in what follows the name. -/
theorem getLast?_getD_append {name : List Char} (hne : name ≠ []) (hslash : '/' ∉ name)
    (attrs : List Char) :
    ((name ++ attrs).getLast?.getD '<' = '/') = (attrs.getLast? = some '/') := by
  rw [List.getLast?_append]
  cases attrs.getLast? with
  | some a => simp
  | none =>
      have hmem := List.getLast_mem hne
      simp only [Option.none_or, List.getLast?_eq_some_getLast hne, Option.getD_some, reduceCtorEq,
        eq_iff_iff, iff_false]
      exact fun hl => hslash (hl ▸ hmem)

/-- A nested opening tag is content and opens one more level, unless it closes
itself. -/
theorem readTemplate?_openTag {depth : Nat} {selfClosing : Bool} {tag more : List Char}
    (h : IsOpenTag templateTag selfClosing tag) :
    readTemplate? .content depth (tag ++ more)
      = prependContent tag
          (readTemplate? .content (if selfClosing then depth else depth + 1) more) := by
  obtain ⟨name, attrs, rfl, hname, hhead, hgt, rfl⟩ := h
  have hslash := not_mem_of_sameIgnoringCase (d := '/') hname (by decide) rfl rfl
  have hgt' : '>' ∉ name ++ attrs := by
    have := not_mem_of_sameIgnoringCase (d := '>') hname (by decide) rfl rfl
    simp [this, hgt]
  have hne : name ≠ [] := by
    rintro rfl
    exact absurd (length_of_sameIgnoringCase hname) (by decide)
  have hclose : readCloseTag? templateTag ('<' :: (name ++ (attrs ++ ['>']) ++ more)) = none := by
    obtain ⟨n, ns, rfl⟩ := List.exists_cons_of_ne_nil hne
    unfold readCloseTag?
    split
    · rename_i heq
      obtain ⟨rfl, -⟩ := List.cons.inj (List.cons.inj heq).2
      exact absurd (List.mem_cons_self ..) hslash
    · rfl
  have hopen : OpensTag templateTag ('<' :: (name ++ (attrs ++ ['>']) ++ more)) := by
    refine ⟨name, attrs ++ '>' :: more, by simp, hname, ?_⟩
    cases attrs with
    | nil => exact headNot_cons.mpr (by decide)
    | cons a attrs => exact hhead
  have hlast := getLast?_getD_append hne hslash attrs
  rw [List.cons_append, readTemplate?_enter hclose hopen]
  have hsplit : name ++ (attrs ++ ['>']) ++ more = (name ++ attrs) ++ '>' :: more := by simp
  rw [hsplit, readTemplate?_tag hgt', prependContent_prependContent]
  simp only [hlast, beq_iff_eq]
  simp

/-- A closing tag of a nested template is content and closes its level. -/
theorem readTemplate?_closeTag {depth : Nat} {close more : List Char}
    (h : IsCloseTag templateTag close) :
    readTemplate? .content (depth + 1) (close ++ more)
      = prependContent close (readTemplate? .content depth more) := by
  have hread : readCloseTag? templateTag (close ++ more) = some more :=
    readCloseTag?_eq_some_iff.mpr ⟨close, rfl, h⟩
  obtain ⟨tail, rfl, htail⟩ := h.eq_cons lt_not_mem_templateTag
  rw [List.cons_append] at hread ⊢
  unfold templateTag at hread
  rw [readTemplate?]
  · show prependContent ['<'] (readTemplate? .content depth (tail ++ more)) = _
    rw [readTemplate?_plain htail, prependContent_prependContent]
    rfl
  case heq => exact hread

/-- The closing tag of the template itself ends the content. -/
theorem readTemplate?_end {close rest : List Char} (h : IsCloseTag templateTag close) :
    readTemplate? .content 0 (close ++ rest) = some ([], rest) := by
  have hread : readCloseTag? templateTag (close ++ rest) = some rest :=
    readCloseTag?_eq_some_iff.mpr ⟨close, rfl, h⟩
  obtain ⟨name, blanks, rfl, -⟩ := h
  rw [List.cons_append] at hread ⊢
  unfold templateTag at hread
  rw [readTemplate?]
  exact hread

/-- Balanced content is read through to the next `<`, at any depth. -/
theorem readTemplate?_balanced {cs : List Char} (h : BalancedTemplates cs) (depth : Nat)
    (more : List Char) :
    readTemplate? .content depth (cs ++ '<' :: more)
      = prependContent cs (readTemplate? .content depth ('<' :: more)) := by
  induction h generalizing depth more with
  | nil => simp
  | @text c cs hopen hclose _ ih =>
      have hnone : readCloseTag? templateTag (c :: cs ++ '<' :: more) = none :=
        readCloseTag?_append_lt lt_not_mem_templateTag hclose
      have hnot : ¬ OpensTag templateTag (c :: cs ++ '<' :: more) :=
        not_opensTag_append_lt lt_not_mem_templateTag hopen
      rw [List.cons_append] at hnone hnot ⊢
      rw [readTemplate?_text hnone hnot, ih, prependContent_prependContent]
      rfl
  | selfClosed htag _ ih =>
      rw [List.append_assoc, readTemplate?_openTag htag, if_pos rfl, ih,
        prependContent_prependContent]
  | @nested tag inner close rest htag _ hclose _ ihInner ihRest =>
      have hsplit : tag ++ (inner ++ (close ++ rest)) ++ '<' :: more
          = tag ++ (inner ++ (close ++ (rest ++ '<' :: more))) := by simp
      rw [hsplit, readTemplate?_openTag htag, if_neg Bool.false_ne_true]
      have hinner := fun tail => ihInner (depth + 1) tail
      obtain ⟨tail, rfl, -⟩ := hclose.eq_cons lt_not_mem_templateTag
      rw [List.cons_append, hinner, ← List.cons_append, readTemplate?_closeTag hclose, ihRest,
        prependContent_prependContent, prependContent_prependContent,
        prependContent_prependContent]
      simp

/-- The content of a template ends exactly in front of the tag that closes it. -/
theorem readTemplate?_append {content close rest : List Char} (hcontent : BalancedTemplates content)
    (hclose : IsCloseTag templateTag close) :
    readTemplate? .content 0 (content ++ (close ++ rest)) = some (content, rest) := by
  have hend : readTemplate? .content 0 (close ++ rest) = some ([], rest) :=
    readTemplate?_end hclose
  obtain ⟨tail, rfl, -⟩ := hclose.eq_cons lt_not_mem_templateTag
  rw [List.cons_append] at hend ⊢
  rw [readTemplate?_balanced hcontent, hend]
  simp [prependContent]

end Recompose
