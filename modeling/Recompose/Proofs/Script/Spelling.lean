import Recompose.Proofs.ComponentTags
import Recompose.Script.Cursor

/-!
# Tokens that were spelled out

How a reader gets the tokens of a text that was put together from names and
punctuation. `Begins` says that a text begins with a token and with what the reader
goes on; a name is one token wherever no part of a name follows it (`begins_name`).
-/

namespace Recompose.Script

/-! ## Names -/

/-- A text that is read as one name. -/
def IsName (name : String) : Prop :=
  name.toList.head?.any isNameStart = true ∧ name.toList.all isNamePart = true

instance (name : String) : Decidable (IsName name) := inferInstanceAs (Decidable (_ ∧ _))

/-- A name ends in front of this text. -/
def EndsName (cs : List Char) : Prop := HeadNot (fun c => isNamePart c || c = '\\') cs

theorem endsName_nil : EndsName [] := nofun

theorem IsName.exists_cons {name : String} (h : IsName name) :
    ∃ c cs, name.toList = c :: cs ∧ isNameStart c = true ∧ ∀ d ∈ c :: cs, isNamePart d = true := by
  obtain ⟨hstart, hparts⟩ := h
  cases hname : name.toList with
  | nil =>
      rw [hname] at hstart
      cases hstart
  | cons c cs =>
      rw [hname] at hstart hparts
      exact ⟨c, cs, rfl, hstart, List.all_eq_true.mp hparts⟩

theorem IsName.toList_ne_nil {name : String} (h : IsName name) : name.toList ≠ [] := by
  obtain ⟨c, cs, hcons, -⟩ := h.exists_cons
  rw [hcons]
  exact List.cons_ne_nil _ _

theorem IsName.not_mem {name : String} (h : IsName name) {c : Char} (hc : isNamePart c = false) :
    c ∉ name.toList := by
  intro hmem
  have hpart := List.all_eq_true.mp h.2 _ hmem
  rw [hc] at hpart
  cases hpart

/-- Code points that stand between tokens or begin a comment. -/
def gapCodes : List Nat :=
  [9, 10, 11, 12, 13, 0x20, 0x2f, 0xa0, 0x1680, 0x2000, 0x2001, 0x2002, 0x2003, 0x2004, 0x2005,
   0x2006, 0x2007, 0x2008, 0x2009, 0x200a, 0x2028, 0x2029, 0x202f, 0x205f, 0x3000, 0xfeff]

def digitCodes : List Nat := [48, 49, 50, 51, 52, 53, 54, 55, 56, 57]

theorem isNameStart_ofNat : ∀ n ∈ gapCodes ++ digitCodes, isNameStart (Char.ofNat n) = false := by
  decide +kernel

/-- No name starts with a character that is skipped between tokens, or with a digit. -/
theorem not_mem_of_isNameStart {c : Char} (h : isNameStart c = true) :
    c.toNat ∉ gapCodes ++ digitCodes := by
  intro hmem
  have hfalse := isNameStart_ofNat _ hmem
  rw [Char.ofNat_toNat, h] at hfalse
  cases hfalse

theorem isDigit_of_isNameStart {c : Char} (h : isNameStart c = true) : c.isDigit = false := by
  have hnot := not_mem_of_isNameStart h
  rw [Bool.eq_false_iff]
  intro hdigit
  simp only [Char.isDigit, Bool.and_eq_true, decide_eq_true_eq] at hdigit
  have hlow : 48 ≤ c.toNat := UInt32.le_iff_toNat_le.mp hdigit.1
  have hhigh : c.toNat ≤ 57 := UInt32.le_iff_toNat_le.mp hdigit.2
  simp only [gapCodes, digitCodes, List.mem_append, List.mem_cons, List.not_mem_nil, or_false]
    at hnot
  omega

/-- Nothing in front of a name is skipped. -/
theorem skipGap_name {c : Char} (h : isNameStart c = true) (pos : Nat) (cs : List Char) :
    skipGap .blank pos false (c :: cs) = (pos, false, c :: cs) := by
  have hnot := not_mem_of_isNameStart h
  have hline : isLineEnd c = false := by
    rw [Bool.eq_false_iff]
    intro hend
    simp only [isLineEnd, Bool.or_eq_true, decide_eq_true_eq] at hend
    rcases hend with ((rfl | rfl) | rfl) | rfl <;> exact hnot (by decide)
  have hblank : isGapChar c = false := by
    rw [Bool.eq_false_iff]
    intro hgap
    simp only [isGapChar, Bool.or_eq_true, Bool.and_eq_true, decide_eq_true_eq] at hgap
    simp only [gapCodes, List.mem_append, List.mem_cons, List.not_mem_nil, or_false] at hnot
    omega
  have hslash : c ≠ '/' := by
    rintro rfl
    exact hnot (by decide)
  simp [skipGap, hline, hblank, hslash]

theorem readName_nil {rest : List Char} (hrest : EndsName rest) (pos : Nat) (name : List Char)
    (escaped : Bool) : readName 0 pos name escaped rest = (name, escaped, pos, rest) := by
  cases rest with
  | nil => rfl
  | cons c rest =>
      have hc := headNot_cons.mp hrest
      rw [Bool.or_eq_false_iff, decide_eq_false_iff_not] at hc
      simp [readName, hc]

theorem readName_name {cs rest : List Char} (hcs : ∀ c ∈ cs, isNamePart c = true)
    (hrest : EndsName rest) (pos : Nat) (name : List Char) (escaped : Bool) :
    readName 0 pos name escaped (cs ++ rest)
      = (cs.reverse ++ name, escaped, pos + byteSize cs, rest) := by
  induction cs generalizing pos name with
  | nil => exact readName_nil hrest pos name escaped
  | cons c cs ih =>
      obtain ⟨hc, hcs⟩ := List.forall_mem_cons.mp hcs
      rw [List.cons_append, readName, if_pos hc, ih hcs, List.reverse_cons, byteSize_cons,
        List.append_assoc, ← Nat.add_assoc]
      rfl

/-! ## Tokens -/

/-- A text begins with a token of `size` bytes, behind a gap of `gap` bytes, and `rest`
follows it. -/
structure Begins (cs : List Char) (gap size : Nat) (kind : TokenKind) (rest : List Char) : Prop where
  token : ∀ offset, (Cursor.start offset cs).token
    = ⟨kind, ⟨offset + gap, offset + gap + size⟩, false⟩
  after : ∀ offset, (Cursor.start offset cs).after = rest

namespace Begins

variable {cs rest : List Char} {gap size : Nat} {kind : TokenKind}

/-- A blank in front of a token widens the gap. -/
theorem blank (h : Begins cs gap size kind rest) : Begins (' ' :: cs) (gap + 1) size kind rest := by
  have hskip : ∀ offset, Cursor.start offset (' ' :: cs)
      = { Cursor.start (offset + 1) cs with prevStop := offset } := fun _ => rfl
  refine ⟨fun offset => ?_, fun offset => ?_⟩
  · rw [hskip, h.token, Nat.add_assoc, Nat.add_comm 1]
  · rw [hskip, h.after]

theorem next (h : Begins cs gap size kind rest) (offset : Nat) :
    (Cursor.start offset cs).next = Cursor.start (offset + gap + size) rest := by
  rw [Cursor.next, h.token, h.after]

theorem of_readToken (hskip : ∀ pos, skipGap .blank pos false cs = (pos, false, cs))
    (hread : ∀ pos, readToken pos cs = (kind, pos + size, rest)) : Begins cs 0 size kind rest := by
  have hstart : ∀ offset, Cursor.start offset cs
      = ⟨cs, ⟨kind, ⟨offset, offset + size⟩, false⟩, rest, offset⟩ := by
    intro offset
    rw [Cursor.start, hskip]
    dsimp only
    rw [hread]
  exact ⟨fun offset => congrArg Cursor.token (hstart offset),
    fun offset => congrArg Cursor.after (hstart offset)⟩

theorem name {name : String} (hname : IsName name) (hrest : EndsName rest) :
    Begins (name.toList ++ rest) 0 (byteSize name.toList) (.word name false) rest := by
  obtain ⟨c, cs, hcons, hc, hcs⟩ := hname.exists_cons
  have hread := fun pos => readName_name hcs hrest pos [] false
  rw [← hcons] at hread
  refine of_readToken (fun pos => ?_) (fun pos => ?_)
  · rw [hcons]
    exact skipGap_name hc pos _
  · have hne : (name.toList.reverse ++ []).isEmpty = false := by simp [hcons]
    have hback : String.ofList (name.toList.reverse ++ []).reverse = name := by simp
    rw [hcons, List.cons_append, readToken, if_pos (by rw [hc, Bool.true_or]), ← List.cons_append,
      ← hcons, hread]
    dsimp only
    rw [hne, if_neg Bool.false_ne_true, hback]

/-- A dot in front of a name begins no number and no longer punctuation. -/
theorem dot {name : String} (hname : IsName name) (rest : List Char) :
    Begins ('.' :: (name.toList ++ rest)) 0 1 (.punct ".") (name.toList ++ rest) := by
  obtain ⟨c, cs, hcons, hc, -⟩ := hname.exists_cons
  rw [hcons, List.cons_append]
  have hdots : firstMatch? punctuators ('.' :: c :: (cs ++ rest)) = none := by
    have hne : ('.' == c) = false := by
      rw [beq_eq_false_iff_ne]
      rintro rfl
      exact absurd hc (by decide)
    have hlong : "...".toList.isPrefixOf ('.' :: c :: (cs ++ rest)) = false := by
      show ('.' == '.' && ('.' == c && _)) = false
      rw [hne, Bool.false_and, Bool.and_false]
    unfold firstMatch? punctuators
    rw [List.find?_cons_of_neg (by rw [hlong]; exact Bool.false_ne_true)]
    rfl
  have hpunct : readPunct? ('.' :: c :: (cs ++ rest)) = some "." := by
    unfold readPunct?
    rw [hdots]
    rfl
  refine of_readToken (fun _ => rfl) (fun pos => ?_)
  have hdigit : (c :: (cs ++ rest)).head?.any Char.isDigit = false := isDigit_of_isNameStart hc
  rw [readToken, hdigit, hpunct]
  rfl

/-- The end of a script. -/
theorem done : Begins [] 0 0 .done [] := ⟨fun _ => rfl, fun _ => rfl⟩

end Begins

end Recompose.Script
