import Recompose.Component.Block
import Recompose.Text.Blank

/-!
# Reading component files

The scanner finds the outermost elements and skips comments and the text
between elements. The content of a block is raw text up to its closing tag;
inside a template, nested template elements are counted.

Every reader takes what is left of the text and returns what is left after
it. Offsets are recovered from the size of what is left, so no reader counts.
-/

namespace Recompose

/-! ## Tag names -/

def isTagNameChar (c : Char) : Bool :=
  c.isAlphanum || c = '-' || c = '_' || c = '.' || c = ':'

/-- Equality of texts when the case of ASCII letters is ignored. -/
def sameIgnoringCase (a b : List Char) : Bool := a.map Char.toLower == b.map Char.toLower

/-- The name of a block: known kinds are written in lower case. -/
def canonicalTag (raw : List Char) : List Char :=
  if ["template", "script", "style"].any fun known => sameIgnoringCase raw known.toList then
    raw.map Char.toLower
  else raw

/-- Reads `tag`, ignoring case, where it is not the beginning of a longer
name. -/
def readTagName? (tag : List Char) (cs : List Char) : Option (List Char) :=
  let rest := cs.drop tag.length
  if sameIgnoringCase (cs.take tag.length) tag && !(rest.head?.any isTagNameChar) then
    some rest
  else none

def readCloseTag? (tag : List Char) : List Char → Option (List Char)
  | '<' :: '/' :: cs =>
    match (readTagName? tag cs).map (·.dropWhile isMarkupBlank) with
    | some ('>' :: rest) => some rest
    | _ => none
  | _ => none

/-! ## Opening tags -/

/-- Characters that end the name of an attribute. -/
def isAttrNameEnd (c : Char) : Bool := isMarkupBlank c || c = '=' || c = '>' || c = '/'

/-- Blanks allowed around the equals sign of an attribute. -/
def isInlineBlank (c : Char) : Bool := c = ' ' || c = '\t'

/-- Splits in front of the first `stop`, if there is one, and drops it. -/
def splitBefore? (stop : Char) : List Char → Option (List Char × List Char)
  | [] => none
  | c :: cs =>
    if c = stop then some ([], cs)
    else (splitBefore? stop cs).map fun (taken, rest) => (c :: taken, rest)

/-- The value after an equals sign: quoted, or up to a blank or the end of the
tag. -/
def readAttrValue? (cs : List Char) : Option (List Char × List Char) :=
  match cs.dropWhile isInlineBlank with
  | '"' :: rest => splitBefore? '"' rest
  | '\'' :: rest => splitBefore? '\'' rest
  | other =>
    let inside := fun c => !(isMarkupBlank c) && c != '>'
    some (other.takeWhile inside, other.dropWhile inside)

/-- One attribute, whose name has begun: its name, its value and what follows. -/
def readAttr? (cs : List Char) : Option ((List Char × Option (List Char)) × List Char) :=
  let name := cs.takeWhile (!isAttrNameEnd ·)
  let rest := cs.dropWhile (!isAttrNameEnd ·)
  match rest.dropWhile isInlineBlank with
  | '=' :: after => (readAttrValue? after).map fun (value, rest) => ((name, some value), rest)
  | _ => some ((name, none), rest)

theorem length_splitBefore? {stop : Char} {cs taken rest : List Char}
    (h : splitBefore? stop cs = some (taken, rest)) : rest.length < cs.length := by
  induction cs generalizing taken with
  | nil => simp [splitBefore?] at h
  | cons c cs ih =>
    simp only [splitBefore?] at h
    split at h
    · simp_all
    · obtain ⟨⟨t, r⟩, hr, heq⟩ := Option.map_eq_some_iff.1 h
      simp only [Prod.mk.injEq] at heq
      have := ih (heq.2 ▸ hr)
      simp only [List.length_cons]
      omega

theorem length_dropWhile_le (p : Char → Bool) (cs : List Char) :
    (cs.dropWhile p).length ≤ cs.length := (List.dropWhile_suffix p).length_le

theorem length_readAttrValue? {cs value rest : List Char}
    (h : readAttrValue? cs = some (value, rest)) : rest.length ≤ cs.length := by
  have hd := length_dropWhile_le isInlineBlank cs
  simp only [readAttrValue?] at h
  split at h
  · rename_i heq
    have := length_splitBefore? h
    simp only [heq, List.length_cons] at hd
    omega
  · rename_i heq
    have := length_splitBefore? h
    simp only [heq, List.length_cons] at hd
    omega
  · simp only [Option.some.injEq, Prod.mk.injEq] at h
    have := length_dropWhile_le (fun c => !(isMarkupBlank c) && c != '>') (cs.dropWhile isInlineBlank)
    rw [h.2] at this
    omega

theorem length_readAttr? {c : Char} {cs rest : List Char} {attr : List Char × Option (List Char)}
    (hc : isAttrNameEnd c = false) (h : readAttr? (c :: cs) = some (attr, rest)) :
    rest.length < (c :: cs).length := by
  have hd := length_dropWhile_le (!isAttrNameEnd ·) cs
  simp only [readAttr?, List.dropWhile_cons, hc, Bool.not_false, if_true] at h
  split at h
  · rename_i after heq
    obtain ⟨⟨v, r⟩, hr, hv⟩ := Option.map_eq_some_iff.1 h
    simp only [Prod.mk.injEq] at hv
    have h1 := length_readAttrValue? hr
    have h2 := length_dropWhile_le isInlineBlank (cs.dropWhile (!isAttrNameEnd ·))
    rw [heq, List.length_cons] at h2
    rw [← hv.2, List.length_cons]
    omega
  · simp only [Option.some.injEq, Prod.mk.injEq] at h
    rw [← h.2, List.length_cons]
    omega

/-- The attributes of an opening tag, whether it closes itself, and what
follows it. A stray slash or equals sign is skipped. -/
def readAttrs? (attrs : Entries (Option String)) (cs : List Char) :
    Option (Entries (Option String) × Bool × List Char) :=
  match hcs : cs.dropWhile isMarkupBlank with
  | [] => none
  | '>' :: rest => some (attrs, false, rest)
  | '/' :: '>' :: rest => some (attrs, true, rest)
  | c :: rest =>
    have hle : rest.length < cs.length := by
      have := length_dropWhile_le isMarkupBlank cs
      rw [hcs, List.length_cons] at this
      omega
    if hend : isAttrNameEnd c = true then readAttrs? attrs rest
    else
      match hattr : readAttr? (c :: rest) with
      | none => none
      | some ((name, value), after) =>
        have : after.length < cs.length := by
          have := length_readAttr? (by simpa using hend) hattr
          simp only [List.length_cons] at this
          omega
        readAttrs? (attrs.put (String.ofList name) (value.map String.ofList)) after
  termination_by cs.length

structure OpenTag where
  tag : List Char
  attrs : Entries (Option String)
  selfClosing : Bool

/-- Reads an opening tag whose name begins here. On failure, gives the name of
the tag that has no end. -/
def readOpenTag (cs : List Char) : Except (List Char) (OpenTag × List Char) :=
  let tag := canonicalTag (cs.takeWhile isTagNameChar)
  match readAttrs? [] (cs.dropWhile isTagNameChar) with
  | some (attrs, selfClosing, rest) => .ok (⟨tag, attrs, selfClosing⟩, rest)
  | none => .error tag

/-! ## Contents -/

/-- Raw content up to the first closing tag, and what follows that tag. -/
def readRaw? (tag : List Char) : List Char → Option (List Char × List Char)
  | [] => none
  | c :: cs =>
    match readCloseTag? tag (c :: cs) with
    | some rest => some ([], rest)
    | none => (readRaw? tag cs).map fun (content, rest) => (c :: content, rest)

/-- Where the scan of a template stands. -/
inductive TemplatePlace where
  /-- In the content, with this many nested templates open. -/
  | content
  /-- Inside a nested opening tag, after the given character. -/
  | tag (previous : Char)

/-- Content of a template with `depth` nested templates open, up to its own
closing tag, and what follows that tag. A nested opening tag goes to the next
`>`. -/
def readTemplate? (place : TemplatePlace) (depth : Nat) :
    List Char → Option (List Char × List Char)
  | [] => none
  | c :: cs =>
    let more := fun (r : Option (List Char × List Char)) =>
      r.map fun (content, rest) => (c :: content, rest)
    match place with
    | .tag previous =>
      if c = '>' then
        more (readTemplate? .content (if previous = '/' then depth else depth + 1) cs)
      else more (readTemplate? (.tag c) depth cs)
    | .content =>
      match readCloseTag? "template".toList (c :: cs), depth with
      | some rest, 0 => some ([], rest)
      | some _, outer + 1 => more (readTemplate? .content outer cs)
      | none, _ =>
        if c = '<' && (readTagName? "template".toList cs).isSome then
          more (readTemplate? (.tag c) depth cs)
        else more (readTemplate? .content depth cs)

/-! ## The sequence of blocks -/

/-- Drops everything up to and including the first end of a comment. -/
def skipComment? : List Char → Option (List Char)
  | [] => none
  | '-' :: '-' :: '>' :: cs => some cs
  | _ :: cs => skipComment? cs

/-- Reads the block that starts with the `<` in front of `cs`. The text has
`size` bytes in all. -/
def readBlock (size : Nat) (cs : List Char) : Except BlockError (Block × List Char) :=
  let start := size - byteSize cs - 1
  match readOpenTag cs with
  | .error tag => .error ⟨.unterminated (String.ofList tag), ⟨start, size⟩⟩
  | .ok (tag, inner) =>
    let name := String.ofList tag.tag
    let found :=
      if tag.selfClosing then some ([], inner)
      else if name = "template" then readTemplate? .content 0 inner
      else readRaw? tag.tag inner
    match found with
    | none => .error ⟨.unclosed name, ⟨start, size⟩⟩
    | some (content, rest) =>
      let contentStart := size - byteSize inner
      .ok ({ tag := name
             attrs := tag.attrs
             content := String.ofList content
             span := ⟨start, size - byteSize rest⟩
             contentSpan := ⟨contentStart, contentStart + byteSize content⟩ }, rest)

theorem length_skipComment? {cs rest : List Char} (h : skipComment? cs = some rest) :
    rest.length ≤ cs.length := by
  fun_induction skipComment? cs with
  | case1 => simp at h
  | case2 cs =>
    cases h
    simp only [List.length_cons]
    omega
  | case3 c cs _ ih =>
    have := ih h
    simp only [List.length_cons]
    omega

theorem length_readTagName? {tag cs rest : List Char} (h : readTagName? tag cs = some rest) :
    rest.length ≤ cs.length := by
  simp only [readTagName?] at h
  split at h
  · simp only [Option.some.injEq] at h
    rw [← h, List.length_drop]
    omega
  · simp at h

theorem length_readCloseTag? {tag cs rest : List Char} (h : readCloseTag? tag cs = some rest) :
    rest.length ≤ cs.length := by
  unfold readCloseTag? at h
  split at h
  · rename_i cs'
    split at h
    · rename_i r heq
      obtain ⟨a, ha, hd⟩ := Option.map_eq_some_iff.1 heq
      have h1 := length_readTagName? ha
      have h2 := length_dropWhile_le isMarkupBlank a
      rw [hd, List.length_cons] at h2
      simp only [Option.some.injEq] at h
      rw [← h]
      simp only [List.length_cons]
      omega
    · simp at h
  · simp at h

theorem length_readRaw? {tag cs content rest : List Char}
    (h : readRaw? tag cs = some (content, rest)) : rest.length ≤ cs.length := by
  induction cs generalizing content with
  | nil => simp [readRaw?] at h
  | cons c cs ih =>
    simp only [readRaw?] at h
    split at h
    · rename_i r heq
      have := length_readCloseTag? heq
      simp_all
    · obtain ⟨⟨t, r⟩, hr, heq⟩ := Option.map_eq_some_iff.1 h
      simp only [Prod.mk.injEq] at heq
      have := ih (heq.2 ▸ hr)
      simp only [List.length_cons]
      omega

theorem length_readTemplate? {place : TemplatePlace} {depth : Nat} {cs content rest : List Char}
    (h : readTemplate? place depth cs = some (content, rest)) : rest.length ≤ cs.length := by
  induction cs generalizing place depth content with
  | nil => simp [readTemplate?] at h
  | cons c cs ih =>
    have step : ∀ {p d}, (readTemplate? p d cs).map (fun x => (c :: x.1, x.2)) =
        some (content, rest) → rest.length ≤ (c :: cs).length := by
      intro p d hm
      obtain ⟨⟨t, r⟩, hr, heq⟩ := Option.map_eq_some_iff.1 hm
      simp only [Prod.mk.injEq] at heq
      have := ih (heq.2 ▸ hr)
      simp only [List.length_cons]
      omega
    unfold readTemplate? at h
    simp only at h
    split at h
    · split at h <;> exact step h
    · split at h
      · rename_i r _ heq
        have := length_readCloseTag? heq
        simp_all
      · exact step h
      · split at h <;> exact step h

theorem length_readAttrs? {attrs attrs' : Entries (Option String)} {b : Bool} {cs rest : List Char}
    (h : readAttrs? attrs cs = some (attrs', b, rest)) : rest.length < cs.length := by
  fun_induction readAttrs? attrs cs with
  | case1 => simp at h
  | case2 attrs cs r heq =>
    cases h
    have := length_dropWhile_le isMarkupBlank cs
    simp only [heq, List.length_cons] at this
    omega
  | case3 attrs cs r heq =>
    cases h
    have := length_dropWhile_le isMarkupBlank cs
    simp only [heq, List.length_cons] at this
    omega
  | case4 attrs cs c r _ _ heq hle hend ih => have := ih h; omega
  | case5 => simp at h
  | case6 attrs cs c r _ _ heq hle hend name value after hattr hlt ih => have := ih h; omega

theorem length_readBlock {size : Nat} {cs rest : List Char} {b : Block}
    (h : readBlock size cs = .ok (b, rest)) : rest.length < cs.length := by
  unfold readBlock at h
  simp only at h
  split at h
  · simp at h
  · rename_i tag inner hopen
    have hin : inner.length < cs.length := by
      unfold readOpenTag at hopen
      simp only at hopen
      split at hopen
      · rename_i hattrs
        have h1 := length_readAttrs? hattrs
        have h2 := length_dropWhile_le isTagNameChar cs
        simp only [Except.ok.injEq, Prod.mk.injEq] at hopen
        rw [← hopen.2]
        omega
      · simp at hopen
    split at h
    · simp at h
    · rename_i content r hfound
      simp only [Except.ok.injEq, Prod.mk.injEq] at h
      rw [← h.2]
      split at hfound
      · simp_all
      · split at hfound
        · have := length_readTemplate? hfound
          omega
        · have := length_readRaw? hfound
          omega

/-- The blocks of a text of `size` bytes, of which `cs` is left, and the fault
that ended the scan early, if any. -/
def readBlocks (size : Nat) (cs : List Char) : List Block × Option BlockError :=
  match cs with
  | [] => ([], none)
  | c :: cs =>
    if c ≠ '<' then readBlocks size cs
    else if cs.take 3 = ['!', '-', '-'] then
      match h : skipComment? (cs.drop 3) with
      | none => ([], none)
      | some rest =>
        have : rest.length < cs.length + 1 := by
          have := length_skipComment? h
          rw [List.length_drop] at this
          omega
        readBlocks size rest
    else if !(cs.head?.any Char.isAlpha) then readBlocks size cs
    else
      match h : readBlock size cs with
      | .error e => ([], some e)
      | .ok (block, rest) =>
        have : rest.length < cs.length + 1 := by
          have := length_readBlock h
          omega
        let (blocks, fault) := readBlocks size rest
        (block :: blocks, fault)
  termination_by cs.length

/-! ## Filing -/

/-- The blocks filed so far, and the faults found on the way. -/
structure Scan where
  descriptor : Descriptor := {}
  errors : List BlockError := []
deriving Repr

/-- Files one block. A block whose single place is taken is a fault. -/
def Scan.file (s : Scan) (b : Block) : Scan :=
  let d := s.descriptor
  let again : Scan := { s with errors := s.errors ++ [⟨.duplicate b.label, b.span⟩] }
  if b.tag = "template" then
    if d.template.isSome then again else { s with descriptor := { d with template := some b } }
  else if b.tag = "script" then
    if b.isSetup then
      if d.scriptSetup.isSome then again
      else { s with descriptor := { d with scriptSetup := some b } }
    else if d.script.isSome then again
    else { s with descriptor := { d with script := some b } }
  else if b.tag = "style" then
    { s with descriptor := { d with styles := d.styles ++ [b] } }
  else { s with descriptor := { d with customBlocks := d.customBlocks ++ [b] } }

def scan (source : String) : Scan :=
  let cs := source.toList
  let (blocks, fault) := readBlocks (byteSize cs) cs
  let filed := blocks.foldl Scan.file {}
  { filed with errors := filed.errors ++ fault.toList }

end Recompose
