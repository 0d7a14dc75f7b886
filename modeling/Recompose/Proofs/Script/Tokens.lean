import Recompose.Proofs.Boundary
import Recompose.Script.Cursor

/-!
# Readers and their offsets

Every reader of a script takes an offset and what is left of the script there.
`Advances` relates these two to what a reader returns: the rest is what is left
of the text after some characters, and the offset has grown by their bytes. The
readers are shown to advance one by one; a cursor is `Sound` when its offsets
and its rests belong to one text, and `Cursor.sound_start` puts both together.
-/

namespace Recompose.Script

/-! ## Advancing -/

/-- From the offset `n`, where `cs` is left, a reader got to `m`, where `ds` is
left. -/
def Advances (n : Nat) (cs : List Char) (m : Nat) (ds : List Char) : Prop :=
  ∃ mid, cs = mid ++ ds ∧ m = n + byteSize mid

namespace Advances

variable {n m k : Nat} {cs ds es : List Char}

theorem refl (n : Nat) (cs : List Char) : Advances n cs n cs := ⟨[], rfl, rfl⟩

theorem cons (n : Nat) (c : Char) (cs : List Char) : Advances n (c :: cs) (n + c.utf8Size) cs :=
  ⟨[c], rfl, by simp⟩

theorem trans (h : Advances n cs m ds) (h' : Advances m ds k es) : Advances n cs k es := by
  obtain ⟨mid, rfl, rfl⟩ := h
  obtain ⟨mid', rfl, rfl⟩ := h'
  exact ⟨mid ++ mid', by simp, by rw [byteSize_append]; omega⟩

/-- Past one character, and on. -/
theorem step {c : Char} (h : Advances (n + c.utf8Size) cs m ds) : Advances n (c :: cs) m ds :=
  (cons n c cs).trans h

theorem le (h : Advances n cs m ds) : n ≤ m := by
  obtain ⟨mid, -, rfl⟩ := h
  exact Nat.le_add_right ..

end Advances

theorem rest_of_advances {text cs ds : List Char} {n m : Nat} (h : Rest text n cs)
    (hadv : Advances n cs m ds) : Rest text m ds := by
  obtain ⟨mid, rfl, rfl⟩ := hadv
  exact h.append

/-! ## ASCII text -/

/-- One byte per character. -/
def IsAscii (cs : List Char) : Prop := ∀ c ∈ cs, c.utf8Size = 1

theorem IsAscii.byteSize_eq {cs : List Char} (h : IsAscii cs) : byteSize cs = cs.length := by
  induction cs with
  | nil => rfl
  | cons c cs ih =>
      have hc := h c (List.mem_cons_self ..)
      have hcs := ih fun d hd => h d (List.mem_cons_of_mem _ hd)
      rw [byteSize_cons, hc, hcs, List.length_cons, Nat.add_comm]

theorem advances_ascii {cs : List Char} (n : Nat) (h : IsAscii cs) (ds : List Char) :
    Advances n (cs ++ ds) (n + cs.length) ds :=
  ⟨cs, rfl, by rw [h.byteSize_eq]⟩

theorem utf8Size_eq_one {c : Char} (h : c.toNat < 128) : c.utf8Size = 1 := by
  have hval : c.val.toNat < 128 := h
  rw [Char.utf8Size_eq_one_iff, UInt32.le_iff_toNat_le]
  simp only [UInt32.reduceToNat]
  omega

theorem IsAscii.nil : IsAscii [] := fun _ h => nomatch h

theorem IsAscii.cons {c : Char} {cs : List Char} (hc : c.utf8Size = 1) (hcs : IsAscii cs) :
    IsAscii (c :: cs) := by
  intro d hd
  rcases List.mem_cons.mp hd with rfl | hd
  · exact hc
  · exact hcs d hd

/-! ## Gaps and names -/

theorem advances_skipGap (gap : Gap) (pos : Nat) (newline : Bool) (cs : List Char) :
    Advances pos cs (skipGap gap pos newline cs).1 (skipGap gap pos newline cs).2.2 := by
  induction cs generalizing gap pos newline with
  | nil => exact .refl ..
  | cons c cs ih =>
      cases gap with
      | blank =>
          simp only [skipGap]
          split
          · exact (ih ..).step
          · split
            · exact (ih ..).step
            · split
              · exact (ih ..).step
              · split
                · exact (ih ..).step
                · exact .refl ..
      | lineComment =>
          simp only [skipGap]
          split <;> exact (ih ..).step
      | blockOpen => exact (ih ..).step
      | blockComment =>
          simp only [skipGap]
          split <;> exact (ih ..).step
      | blockClose => exact (ih ..).step

theorem advances_readName (skip pos : Nat) (name : List Char) (escaped : Bool) (cs : List Char) :
    Advances pos cs (readName skip pos name escaped cs).2.2.1
      (readName skip pos name escaped cs).2.2.2 := by
  induction cs generalizing skip pos name escaped with
  | nil => exact .refl ..
  | cons c cs ih =>
      cases skip with
      | succ k => exact (ih ..).step
      | zero =>
          simp only [readName]
          split
          · exact (ih ..).step
          · split
            · split
              · split
                · exact (ih ..).step
                · exact .refl ..
              · exact .refl ..
            · exact .refl ..

theorem escaped_readName (skip pos : Nat) (name cs : List Char) :
    (readName skip pos name true cs).2.1 = true := by
  induction cs generalizing skip pos name with
  | nil => rfl
  | cons c cs ih =>
      cases skip with
      | succ k => exact ih ..
      | zero =>
          simp only [readName]
          split
          · exact ih ..
          · split
            · split
              · split
                · exact ih ..
                · rfl
              · rfl
            · rfl

/-- A name without escapes is the text that it was read from. -/
theorem exists_of_readName {pos : Nat} {name cs : List Char}
    (h : (readName 0 pos name false cs).2.1 = false) :
    ∃ word, (readName 0 pos name false cs).1 = word.reverse ++ name ∧ word <+: cs := by
  induction cs generalizing pos name with
  | nil => exact ⟨[], rfl, List.nil_prefix⟩
  | cons c cs ih =>
      have hends : ∃ word, name = List.reverse word ++ name ∧ word <+: c :: cs :=
        ⟨[], rfl, List.nil_prefix⟩
      simp only [readName] at h ⊢
      split at h
      · obtain ⟨word, hname, hword⟩ := ih h
        refine ⟨c :: word, ?_, (List.cons_prefix_cons).mpr ⟨rfl, hword⟩⟩
        rw [if_pos ‹_›, hname, List.reverse_cons, List.append_assoc, List.singleton_append]
      · rw [if_neg ‹_›]
        split
        · split
          · split
            · rename_i hbackslash _ _ _ hescape hu
              rw [if_pos hbackslash] at h
              simp only [hescape, if_pos hu, escaped_readName] at h
              cases h
            · exact hends
          · exact hends
        · exact hends

theorem advances_readString {quote : Char} {skip pos stop : Nat} {units units' : List Nat}
    {cs after : List Char} (h : readString quote skip pos units cs = .ok (units', stop, after)) :
    Advances pos cs stop after := by
  induction cs generalizing skip pos units with
  | nil =>
      cases h
      exact .refl ..
  | cons c cs ih =>
      cases skip with
      | succ k => exact (ih h).step
      | zero =>
          simp only [readString] at h
          split at h
          · cases h
            exact .cons ..
          · split at h
            · cases h
              exact .refl ..
            · split at h
              · split at h
                · exact (ih h).step
                · exact (ih h).step
                · split at h
                  · rename_i hempty
                    cases h
                    rw [List.isEmpty_iff.mp hempty]
                    exact .cons ..
                  · cases h
              · exact (ih h).step

/-! ## Numbers -/

theorem isAscii_takeWhile {p : Char → Bool} (h : ∀ c, p c = true → c.toNat < 128) (cs : List Char) :
    IsAscii (cs.takeWhile p) := by
  intro c hc
  exact utf8Size_eq_one (h c (List.all_eq_true.mp (List.all_takeWhile ..) c hc))

/-- Digits of a kind and separators are ASCII. -/
theorem advances_spanDigits {isDigit : Char → Bool} (h : ∀ c, isDigit c = true → c.toNat < 128)
    (n : Nat) (cs : List Char) :
    Advances n cs (n + (spanDigits isDigit cs).1.length) (spanDigits isDigit cs).2 := by
  have hinside : ∀ c, (isDigit c || c = '_') = true → c.toNat < 128 := by
    intro c hc
    rcases Bool.or_eq_true .. ▸ hc with hc | hc
    · exact h c hc
    · rw [of_decide_eq_true hc]
      decide
  have hadv := advances_ascii n (isAscii_takeWhile hinside cs)
    (cs.dropWhile fun c => isDigit c || c = '_')
  rwa [List.takeWhile_append_dropWhile] at hadv

theorem toNat_le_of_le {c d : Char} (h : c ≤ d) : c.toNat ≤ d.toNat :=
  UInt32.le_iff_toNat_le.mp h

theorem isHexDigit_ascii (c : Char) (h : isHexDigit c = true) : c.toNat < 128 := by
  have h9 : '9'.toNat < 128 := by decide
  have hf : 'f'.toNat < 128 := by decide
  have hF : 'F'.toNat < 128 := by decide
  simp only [isHexDigit, hexValue?, Bool.and_eq_true, decide_eq_true_eq] at h
  split at h
  · rename_i hc
    exact Nat.lt_of_le_of_lt (toNat_le_of_le hc.2) h9
  · split at h
    · rename_i hc
      exact Nat.lt_of_le_of_lt (toNat_le_of_le hc.2) hf
    · split at h
      · rename_i hc
        exact Nat.lt_of_le_of_lt (toNat_le_of_le hc.2) hF
      · cases h

theorem isOctalDigit_ascii (c : Char) (h : isOctalDigit c = true) : c.toNat < 128 := by
  have h7 : '7'.toNat < 128 := by decide
  simp only [isOctalDigit, Bool.and_eq_true, decide_eq_true_eq] at h
  exact Nat.lt_of_le_of_lt (toNat_le_of_le h.2) h7

theorem isBinaryDigit_ascii (c : Char) (h : (c = '0' || c = '1') = true) : c.toNat < 128 := by
  simp only [Bool.or_eq_true, decide_eq_true_eq] at h
  rcases h with rfl | rfl <;> decide

theorem isDigit_ascii (c : Char) (h : c.isDigit = true) : c.toNat < 128 := by
  simp only [Char.isDigit, Bool.and_eq_true, decide_eq_true_eq] at h
  have h9 : c.val.toNat ≤ 57 := UInt32.le_iff_toNat_le.mp h.2
  show c.val.toNat < 128
  omega

theorem advances_readSign (n : Nat) (cs : List Char) :
    Advances n cs (n + (readSign cs).2.1) (readSign cs).2.2 := by
  unfold readSign
  split
  · exact .cons ..
  · exact .cons ..
  · exact .refl ..

theorem advances_readExponent? {cs after : List Char} {e : Int} {size : Nat} (n : Nat)
    (h : readExponent? cs = some (e, size, after)) : Advances n cs (n + size) after := by
  unfold readExponent? at h
  split at h
  · rename_i c rest
    split at h
    · rename_i hc
      have hone : c.utf8Size = 1 := by
        simp only [Bool.or_eq_true, decide_eq_true_eq] at hc
        rcases hc with rfl | rfl <;> rfl
      have hmark : Advances n (c :: rest) (n + 1) rest := hone ▸ Advances.cons n c rest
      simp only at h
      split at h
      · cases h
      · cases h
        have hsign := advances_readSign (n + 1) rest
        have hdigits := advances_spanDigits isDigit_ascii (n + 1 + (readSign rest).2.1)
          (readSign rest).2.2
        simpa only [Nat.add_assoc] using (hmark.trans hsign).trans hdigits
    · cases h
  · cases h

theorem advances_readFraction (n : Nat) (cs : List Char) :
    Advances n cs (n + (readFraction cs).2.1) (readFraction cs).2.2 := by
  unfold readFraction
  split
  · rename_i rest
    have hdigits := advances_spanDigits isDigit_ascii (n + 1) rest
    simpa only [Nat.add_assoc] using (Advances.cons n '.' rest).trans hdigits
  · exact .refl ..

theorem advances_readRadix {isDigit : Char → Bool} (h : ∀ c, isDigit c = true → c.toNat < 128)
    (base pos : Nat) (cs : List Char) :
    Advances pos cs (readRadix base isDigit pos cs).2.1 (readRadix base isDigit pos cs).2.2 := by
  have hdigits := advances_spanDigits h pos cs
  unfold readRadix
  generalize spanDigits isDigit cs = digits at hdigits
  obtain ⟨digits, rest⟩ := digits
  simp only at hdigits ⊢
  split
  · exact hdigits.trans (.cons ..)
  · exact hdigits

theorem advances_readDecimal (pos : Nat) (cs : List Char) :
    Advances pos cs (readDecimal pos cs).2.1 (readDecimal pos cs).2.2 := by
  have hwhole := advances_spanDigits isDigit_ascii pos cs
  unfold readDecimal
  generalize spanDigits Char.isDigit cs = whole at hwhole
  obtain ⟨whole, rest⟩ := whole
  simp only at hwhole ⊢
  split
  · exact hwhole
  · split
    · exact hwhole.trans (.cons ..)
    · have hfraction := hwhole.trans (advances_readFraction _ rest)
      generalize readFraction rest = fraction at hfraction
      split
      · rename_i hexponent
        exact hfraction.trans (advances_readExponent? _ hexponent)
      · exact hfraction

theorem advances_readNumber (pos : Nat) (cs : List Char) :
    Advances pos cs (readNumber pos cs).2.1 (readNumber pos cs).2.2 := by
  unfold readNumber
  split
  · rename_i marker rest
    have hmarked : ∀ c d : Char, (marker = c || marker = d) = true → c.utf8Size = 1 →
        d.utf8Size = 1 → Advances pos ('0' :: marker :: rest) (pos + 2) rest := by
      intro c d hmarker hc hd
      have hone : marker.utf8Size = 1 := by
        simp only [Bool.or_eq_true, decide_eq_true_eq] at hmarker
        rcases hmarker with rfl | rfl
        · exact hc
        · exact hd
      exact advances_ascii pos (.cons rfl (.cons hone .nil)) rest
    split
    · rename_i hx
      exact (hmarked 'x' 'X' hx rfl rfl).trans (advances_readRadix isHexDigit_ascii ..)
    · split
      · rename_i ho
        exact (hmarked 'o' 'O' ho rfl rfl).trans (advances_readRadix isOctalDigit_ascii ..)
      · split
        · rename_i hb
          exact (hmarked 'b' 'B' hb rfl rfl).trans (advances_readRadix isBinaryDigit_ascii ..)
        · exact advances_readDecimal ..
  · exact advances_readDecimal ..

/-! ## Punctuation -/

/-- A text of ASCII characters that stands in front of what is left. -/
def Stands (text : String) (cs : List Char) : Prop := text.toList <+: cs ∧ IsAscii text.toList

theorem Stands.advances {text : String} {cs : List Char} (h : Stands text cs) (n : Nat) :
    Advances n cs (n + text.length) (cs.drop text.length) := by
  obtain ⟨⟨rest, rfl⟩, hascii⟩ := h
  have hadv := advances_ascii n hascii rest
  rw [String.length_toList] at hadv
  rwa [← String.length_toList, List.drop_left, String.length_toList]

theorem stands_of_firstMatch? {texts : List String} {cs : List Char} {text : String}
    (hascii : ∀ t ∈ texts, IsAscii t.toList) (h : firstMatch? texts cs = some text) :
    Stands text cs := by
  unfold firstMatch? at h
  have hprefix := List.find?_some h
  exact ⟨List.isPrefixOf_iff_prefix.mp hprefix, hascii text (List.mem_of_find?_eq_some h)⟩

-- Named, as an instance that goes through all characters would be found first.
instance (cs : List Char) : Decidable (IsAscii cs) :=
  List.decidableBAll (fun c : Char => c.utf8Size = 1) cs

theorem isAscii_punctuators : ∀ t ∈ punctuators, IsAscii t.toList := by decide

theorem isAscii_greaterOperators : ∀ t ∈ greaterOperators, IsAscii t.toList := by decide

theorem utf8Size_of_isPunctChar {c : Char} (h : isPunctChar c = true) : c.utf8Size = 1 := by
  have hascii : IsAscii "\x7b\x7d()[];,<>+-*/%&|^!~?:=.@#`".toList := by decide
  exact hascii c (List.contains_iff_mem.mp h)

theorem stands_of_readPunct? {cs : List Char} {text : String} (h : readPunct? cs = some text) :
    Stands text cs := by
  unfold readPunct? at h
  split at h
  · rename_i hmatch
    cases h
    exact stands_of_firstMatch? isAscii_punctuators hmatch
  · split at h
    · cases h
      split
      · exact ⟨⟨_, rfl⟩, by decide⟩
      · exact ⟨⟨_, rfl⟩, by decide⟩
    · split at h
      · rename_i hpunct
        cases h
        rw [Stands, String.toList_singleton]
        exact ⟨⟨_, rfl⟩, .cons (utf8Size_of_isPunctChar hpunct) .nil⟩
      · cases h
    · cases h

/-! ## Tokens -/

def TokenKind.isNumeric : TokenKind → Bool
  | .number _ | .bigint => true
  | _ => false

theorem isNumeric_readNumber (pos : Nat) (cs : List Char) :
    (readNumber pos cs).1.isNumeric = true := by
  have hradix : ∀ base isDigit pos cs, (readRadix base isDigit pos cs).1.isNumeric = true := by
    intro base isDigit pos cs
    unfold readRadix
    simp only
    split <;> rfl
  have hdecimal : ∀ pos cs, (readDecimal pos cs).1.isNumeric = true := by
    intro pos cs
    unfold readDecimal
    simp only
    split
    · rfl
    · split
      · rfl
      · split <;> rfl
  unfold readNumber
  split
  · split
    · exact hradix ..
    · split
      · exact hradix ..
      · split
        · exact hradix ..
        · exact hdecimal ..
  · exact hdecimal ..

theorem readNumber_ne {kind : TokenKind} (hkind : kind.isNumeric = false) (pos : Nat)
    (cs : List Char) : (readNumber pos cs).1 ≠ kind := by
  rintro rfl
  exact absurd (hkind.symm.trans (isNumeric_readNumber pos cs)) nofun

/-- A span in the text that is left at an offset. -/
def Ahead (pos : Nat) (cs : List Char) (s : Span) : Prop :=
  ∃ ds es, Advances pos cs s.start ds ∧ Advances s.start ds s.stop es

theorem Advances.ahead {pos stop : Nat} {cs after : List Char} (h : Advances pos cs stop after) :
    Ahead pos cs ⟨pos, stop⟩ :=
  ⟨cs, after, .refl pos cs, h⟩

theorem Ahead.isSlice {text cs : List Char} {pos : Nat} {s : Span} (h : Ahead pos cs s)
    (hcs : Rest text pos cs) : s.IsSlice text := by
  obtain ⟨ds, es, hstart, hstop⟩ := h
  have hds := rest_of_advances hcs hstart
  exact .of_boundaries hstop.le ⟨ds, hds⟩ ⟨es, rest_of_advances hds hstop⟩

/-- What is known about a token that was read at an offset: where it ends, what
stands there when it is punctuation or a word without escapes, and what is blamed
when it is no token. -/
structure TokenAt (pos : Nat) (cs : List Char) (kind : TokenKind) (stop : Nat)
    (after : List Char) : Prop where
  advances : Advances pos cs stop after
  stands : ∀ text, kind = .punct text → Stands text cs ∧ stop = pos + text.length
  word : ∀ name, kind = .word name false → name.toList <+: cs
  ahead : ∀ fault, kind = .invalid fault → Ahead pos cs fault

/-- Tokens of which no more is known than where they end. -/
def TokenKind.isSilent : TokenKind → Bool
  | .punct _ | .word _ false | .invalid _ => false
  | _ => true

theorem TokenKind.isSilent_of_isNumeric {kind : TokenKind} (h : kind.isNumeric = true) :
    kind.isSilent = true := by
  cases kind with
  | number _ | bigint => rfl
  | _ => cases h

namespace TokenAt

variable {pos stop : Nat} {cs after : List Char} {kind : TokenKind}

theorem silent (hadv : Advances pos cs stop after) (hkind : kind.isSilent = true) :
    TokenAt pos cs kind stop after where
  advances := hadv
  stands := by
    rintro text rfl
    cases hkind
  word := by
    rintro name rfl
    cases hkind
  ahead := by
    rintro fault rfl
    cases hkind

theorem word_of_readName (hadv : Advances pos cs stop after) {escaped : Bool}
    (hname : (readName 0 pos [] false cs).2.1 = escaped) :
    TokenAt pos cs (.word (String.ofList (readName 0 pos [] false cs).1.reverse) escaped) stop
      after where
  advances := hadv
  stands := nofun
  word := by
    intro name h
    obtain ⟨rfl, rfl⟩ := TokenKind.word.inj h
    obtain ⟨word, hword, hprefix⟩ := exists_of_readName hname
    rwa [hword, List.append_nil, List.reverse_reverse, String.toList_ofList]
  ahead := nofun

theorem punct {text : String} (hstands : Stands text cs) (pos : Nat) :
    TokenAt pos cs (.punct text) (pos + text.length) (cs.drop text.length) where
  advances := hstands.advances pos
  stands := by
    rintro _ ⟨⟩
    exact ⟨hstands, rfl⟩
  word := nofun
  ahead := nofun

theorem invalid {fault : Span} (hadv : Advances pos cs stop after) (hahead : Ahead pos cs fault) :
    TokenAt pos cs (.invalid fault) stop after :=
  ⟨hadv, nofun, nofun, fun _ h => TokenKind.invalid.inj h ▸ hahead⟩

end TokenAt

/-- Only the letters of the escapes that spell a code point can be followed by
what makes no escape. -/
theorem utf8Size_of_readEscape?_eq_none {c : Char} {cs : List Char}
    (h : readEscape? (c :: cs) = none) : c.utf8Size = 1 := by
  by_cases hx : c = 'x'
  · rw [hx]
    rfl
  by_cases hu : c = 'u'
  · rw [hu]
    rfl
  simp only [readEscape?, hx, hu, if_false] at h
  repeat' split at h
  all_goals cases h

/-- A string with a malformed escape is blamed up to the letter of that escape. -/
theorem ahead_readString {quote : Char} {skip pos stop : Nat} {units : List Nat} {cs : List Char}
    (h : readString quote skip pos units cs = .error stop) : ∃ ds, Advances pos cs stop ds := by
  induction cs generalizing skip pos units with
  | nil => cases h
  | cons c cs ih =>
      have hstep : ∀ {skip units}, readString quote skip (pos + c.utf8Size) units cs = .error stop →
          ∃ ds, Advances pos (c :: cs) stop ds :=
        fun h => (ih h).imp fun _ hds => hds.step
      cases skip with
      | succ k => exact hstep h
      | zero =>
          simp only [readString] at h
          split at h
          · cases h
          · split at h
            · cases h
            · split at h
              · split at h
                · exact hstep h
                · exact hstep h
                · rename_i hescape
                  split at h
                  · cases h
                  · rename_i hne
                    cases h
                    cases cs with
                    | nil => exact absurd rfl hne
                    | cons d ds =>
                        have hone := utf8Size_of_readEscape?_eq_none hescape
                        exact ⟨ds, hone ▸ (Advances.cons _ d ds).step⟩
              · exact hstep h

theorem tokenAt_readToken (pos : Nat) (cs : List Char) :
    TokenAt pos cs (readToken pos cs).1 (readToken pos cs).2.1 (readToken pos cs).2.2 := by
  unfold readToken
  split
  · exact .silent (.refl ..) rfl
  · rename_i c rest
    have hskip := Advances.cons pos c rest
    split
    · have hname := advances_readName 0 pos [] false (c :: rest)
      simp only
      split
      · exact .invalid hskip hskip.ahead
      · exact .word_of_readName hname rfl
    · split
      · rename_i hquote
        have hone : c.utf8Size = 1 := by
          simp only [Bool.or_eq_true, decide_eq_true_eq] at hquote
          rcases hquote with rfl | rfl <;> rfl
        have hopen : Advances pos (c :: rest) (pos + 1) rest := hone ▸ hskip
        split
        · rename_i hstring
          exact .silent (hopen.trans (advances_readString hstring)) rfl
        · rename_i hstring
          obtain ⟨ds, hds⟩ := ahead_readString hstring
          exact .invalid hopen (hopen.trans hds).ahead
      · split
        · have hnumber := advances_readNumber pos (c :: rest)
          simp only
          split
          · exact .invalid hnumber ⟨_, _, hnumber, .refl ..⟩
          · exact .silent hnumber (TokenKind.isSilent_of_isNumeric (isNumeric_readNumber ..))
        · split
          · rename_i hhash
            have hc : c = '#' := of_decide_eq_true (Bool.and_eq_true_iff.mp hhash).1
            subst hc
            exact .silent (hskip.trans (advances_readName 0 (pos + 1) [] false rest)) rfl
          · split
            · rename_i text hpunct
              exact .punct (stands_of_readPunct? hpunct) pos
            · exact .invalid hskip hskip.ahead

/-! ## Other readers -/

theorem advances_readRegex? {inClass skip : Bool} {pos stop : Nat} {cs after : List Char}
    (h : readRegex? inClass skip pos cs = some (stop, after)) : Advances pos cs stop after := by
  induction cs generalizing inClass skip pos with
  | nil => cases h
  | cons c cs ih =>
      simp only [readRegex?] at h
      split at h
      · cases h
      · split at h
        · exact (ih h).step
        · split at h
          · exact (ih h).step
          · split at h
            · exact (ih h).step
            · split at h
              · exact (ih h).step
              · split at h
                · cases h
                  exact (advances_readName ..).step
                · exact (ih h).step

theorem advances_readTemplateText? {skip ended : Bool} {pos stop : Nat} {cs after : List Char}
    (h : readTemplateText? skip pos cs = some (ended, stop, after)) :
    Advances pos cs stop after := by
  induction cs generalizing skip pos with
  | nil => cases h
  | cons c cs ih =>
      simp only [readTemplateText?] at h
      split at h
      · exact (ih h).step
      · split at h
        · exact (ih h).step
        · split at h
          · cases h
            exact .cons ..
          · split at h
            · split at h
              · cases h
                exact (Advances.cons ..).step
              · exact (ih h).step
            · exact (ih h).step

theorem advances_readMarkupText (pos : Nat) (cs : List Char) :
    Advances pos cs (readMarkupText pos cs).1 (readMarkupText pos cs).2 := by
  induction cs generalizing pos with
  | nil => exact .refl ..
  | cons c cs ih =>
      simp only [readMarkupText]
      split
      · exact .refl ..
      · exact (ih ..).step

theorem advances_readMarkupString? {quote : Char} {pos stop : Nat} {cs after : List Char}
    (h : readMarkupString? quote pos cs = some (stop, after)) : Advances pos cs stop after := by
  induction cs generalizing pos with
  | nil => cases h
  | cons c cs ih =>
      simp only [readMarkupString?] at h
      split at h
      · cases h
        exact .cons ..
      · exact (ih h).step

theorem advances_readMarkupName (pos : Nat) (cs : List Char) :
    Advances pos cs (readMarkupName pos cs).1 (readMarkupName pos cs).2 := by
  induction cs generalizing pos with
  | nil => exact .refl ..
  | cons c cs ih =>
      simp only [readMarkupName]
      split
      · exact (ih ..).step
      · exact .refl ..

/-! ## Cursors -/

/-- The offsets and rests of a cursor belong to one text, and stand in order. -/
structure Cursor.Sound (text : List Char) (c : Cursor) : Prop where
  prev : IsBoundary text c.prevStop
  prev_le : c.prevStop ≤ c.token.span.start
  here : Rest text c.token.span.start c.here
  token : TokenAt c.token.span.start c.here c.token.kind c.token.span.stop c.after

namespace Cursor.Sound

variable {text : List Char} {c : Cursor}

theorem after (h : c.Sound text) : Rest text c.token.span.stop c.after :=
  rest_of_advances h.here h.token.advances

theorem start_le (h : c.Sound text) : c.token.span.start ≤ c.token.span.stop := h.token.advances.le

/-- The cursor that starts at any place of the text is sound. -/
theorem start {n : Nat} {cs : List Char} (h : Rest text n cs) : (Cursor.start n cs).Sound text where
  prev := ⟨cs, h⟩
  prev_le := (advances_skipGap .blank n false cs).le
  here := rest_of_advances h (advances_skipGap .blank n false cs)
  token := tokenAt_readToken ..

theorem next (h : c.Sound text) : c.next.Sound text := start h.after

theorem isSlice (h : c.Sound text) : c.token.span.IsSlice text :=
  .of_boundaries h.start_le ⟨_, h.here⟩ ⟨_, h.after⟩

/-- A parser that fails here blames a piece of the text. -/
theorem isSlice_fault (h : c.Sound text) : c.fault.IsSlice text := by
  unfold Cursor.fault
  split
  · rename_i fault hkind
    exact (h.token.ahead fault hkind).isSlice h.here
  · exact h.isSlice

end Cursor.Sound

@[simp] theorem Cursor.prevStop_next (c : Cursor) : c.next.prevStop = c.token.span.stop := rfl

end Recompose.Script
