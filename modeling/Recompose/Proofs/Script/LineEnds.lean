import Recompose.Proofs.Script.Tokens

/-!
# Text in front of a line end

No token goes on behind a line end. What stands behind a text on lines of its own
therefore changes none of its tokens. The two exceptions are a block comment and a
string that escapes the line end: they go on. `Cursor.EndsLine` tells of a place that
it is in neither.
-/

namespace Recompose.Script

variable {rest : List Char}

/-! ## Characters in front of a line end -/

section

variable {p : Char → Bool}

theorem takeWhile_append_lineEnd (hp : p '\n' = false) (cs rest : List Char) :
    (cs ++ '\n' :: rest).takeWhile p = cs.takeWhile p := by
  induction cs with
  | nil => simp [hp]
  | cons c cs ih =>
      rw [List.cons_append, List.takeWhile_cons, List.takeWhile_cons, ih]

theorem dropWhile_append_lineEnd (hp : p '\n' = false) (cs rest : List Char) :
    (cs ++ '\n' :: rest).dropWhile p = cs.dropWhile p ++ '\n' :: rest := by
  induction cs with
  | nil => simp [hp]
  | cons c cs ih =>
      rw [List.cons_append, List.dropWhile_cons, List.dropWhile_cons, ih]
      split <;> rfl

theorem takeWhile_take_append_lineEnd (hp : p '\n' = false) (n : Nat) (cs rest : List Char) :
    ((cs ++ '\n' :: rest).take n).takeWhile p = (cs.take n).takeWhile p := by
  induction cs generalizing n with
  | nil => cases n <;> simp [hp]
  | cons c cs ih =>
      cases n with
      | zero => rfl
      | succ n =>
          rw [List.cons_append, List.take_succ_cons, List.take_succ_cons, List.takeWhile_cons,
            List.takeWhile_cons, ih]

/-- A number of characters of a kind that no line end has is there or is not. -/
theorem take_append_lineEnd (hp : p '\n' = false) (n : Nat) (cs rest : List Char) :
    (cs ++ '\n' :: rest).take n = cs.take n ∨
      ((cs ++ '\n' :: rest).take n).all p = false ∧ (cs.take n).length ≠ n := by
  rcases Nat.lt_or_ge cs.length n with hn | hn
  · refine .inr ⟨?_, ?_⟩
    · obtain ⟨k, rfl⟩ := Nat.exists_eq_add_of_lt hn
      rw [show cs.length + k + 1 = cs.length + (k + 1) by omega, List.take_length_add_append,
        List.take_succ_cons]
      simp [hp]
    · rw [List.length_take]
      omega
  · exact .inl (List.take_append_of_le_length hn)

theorem head?_append_lineEnd {d : Char} (hd : d ≠ '\n') (cs rest : List Char) :
    ((cs ++ '\n' :: rest).head? = some d) = (cs.head? = some d) := by
  cases cs with
  | nil => simp [hd.symm]
  | cons c cs => rfl

theorem any_head?_append_lineEnd (hp : p '\n' = false) (cs rest : List Char) :
    (cs ++ '\n' :: rest).head?.any p = cs.head?.any p := by
  cases cs with
  | nil => simp [hp]
  | cons c cs => rfl

theorem isPrefixOf_append_lineEnd {u : List Char} (hu : '\n' ∉ u) (cs rest : List Char) :
    u.isPrefixOf (cs ++ '\n' :: rest) = u.isPrefixOf cs := by
  induction u generalizing cs with
  | nil => simp
  | cons c u ih =>
      rw [List.mem_cons, not_or] at hu
      cases cs with
      | nil => simp [List.isPrefixOf_cons_cons, Ne.symm hu.1]
      | cons d cs =>
          rw [List.cons_append, List.isPrefixOf_cons_cons, List.isPrefixOf_cons_cons, ih hu.2]

end

/-! ## Escapes -/

/-- Only a lone carriage return makes one line end with the one behind it. -/
theorem readEscape?_append {cs : List Char} (hne : cs ≠ []) (hcr : cs ≠ ['\r'])
    (rest : List Char) : readEscape? (cs ++ '\n' :: rest) = readEscape? cs := by
  obtain ⟨c, cs, rfl⟩ := List.exists_cons_of_ne_nil hne
  have hhex : isHexDigit '\n' = false := by decide
  have hhexes : ∀ (n : Nat) (f : List Char → Option (Option Nat × Nat)),
      (if (((cs ++ '\n' :: rest).take n).length = n && ((cs ++ '\n' :: rest).take n).all isHexDigit)
          = true then f ((cs ++ '\n' :: rest).take n) else none)
        = if ((cs.take n).length = n && (cs.take n).all isHexDigit) = true then f (cs.take n)
          else none := by
    intro n f
    rcases take_append_lineEnd hhex n cs rest with htake | ⟨hall, hlength⟩
    · rw [htake]
    · rw [hall, decide_eq_false hlength, Bool.and_false, Bool.false_and]
      rfl
  simp only [List.cons_append, readEscape?]
  iterate 6 refine ite_congr rfl (fun _ => rfl) fun _ => ?_
  refine ite_congr rfl (fun hc => ?_) fun _ => ite_congr rfl (fun _ => rfl) fun _ => ?_
  · cases cs with
    | nil => exact absurd (hc ▸ rfl) hcr
    | cons d cs => rfl
  refine ite_congr rfl (fun _ => hhexes 2 fun ds => some (some (digitsValue 16 ds), 3)) fun _ => ?_
  refine ite_congr rfl (fun _ => ?_) fun _ => ?_
  · refine ite_congr (head?_append_lineEnd (by decide) cs rest) (fun hbrace => ?_) fun _ =>
      hhexes 4 fun ds => some (some (digitsValue 16 ds), 5)
    obtain ⟨ds, rfl⟩ := List.head?_eq_some_iff.mp hbrace
    have hdigits := takeWhile_append_lineEnd hhex ds rest
    have hle : (ds.takeWhile isHexDigit).length ≤ ds.length := (List.takeWhile_sublist _).length_le
    rw [List.cons_append, List.drop_one, List.tail_cons, List.drop_one, List.tail_cons, hdigits,
      Nat.add_comm, List.drop_succ_cons, List.drop_succ_cons, List.drop_append_of_le_length hle]
    simp only [head?_append_lineEnd (show '\x7d' ≠ '\n' by decide)]
  · rw [takeWhile_take_append_lineEnd (by decide)]

/-- An escape of at most so many characters. -/
def EscapesAtMost (most : Nat) (escape : Option (Option Nat × Nat)) : Prop :=
  ∀ code n, escape = some (code, n) → n ≤ most

namespace EscapesAtMost

variable {most : Nat} {escape escape' : Option (Option Nat × Nat)}

theorem ite {q : Prop} [Decidable q] (h : q → EscapesAtMost most escape)
    (h' : ¬ q → EscapesAtMost most escape') :
    EscapesAtMost most (if q then escape else escape') := by
  split
  · exact h ‹_›
  · exact h' ‹_›

theorem of_le {code : Option Nat} {n : Nat} (h : n ≤ most) :
    EscapesAtMost most (some (code, n)) := by
  rintro _ _ ⟨⟩
  exact h

theorem of_none : EscapesAtMost most none := nofun

end EscapesAtMost

theorem escapesAtMost_readEscape? (cs : List Char) : EscapesAtMost cs.length (readEscape? cs) := by
  cases cs with
  | nil => exact .of_none
  | cons c cs =>
      rw [List.length_cons]
      have hone : 1 ≤ cs.length + 1 := Nat.le_add_left ..
      have hhexes : ∀ (n : Nat) (q : Bool) (code : Nat), EscapesAtMost (cs.length + 1)
          (if ((cs.take n).length = n && q) = true then some (some code, n + 1) else none) := by
        refine fun n q code => .ite (fun h => .of_le ?_) fun _ => .of_none
        have hlength := of_decide_eq_true (Bool.and_eq_true_iff.mp h).1
        rw [List.length_take] at hlength
        omega
      unfold readEscape?
      dsimp only
      iterate 6 refine .ite (fun _ => .of_le hone) fun _ => ?_
      refine .ite (fun _ => .of_le ?_) fun _ => .ite (fun _ => .of_le hone) fun _ => ?_
      · split
        · rename_i hhead
          obtain ⟨ds, rfl⟩ := List.head?_eq_some_iff.mp hhead
          exact Nat.succ_le_succ (Nat.le_add_left ..)
        · exact hone
      refine .ite (fun _ => hhexes 2 _ _) fun _ => .ite (fun _ => ?_) fun _ => ?_
      · refine .ite (fun hbrace => ?_) fun _ => hhexes 4 _ _
        obtain ⟨ds, rfl⟩ := List.head?_eq_some_iff.mp hbrace
        refine .ite (fun hclosed => .of_le ?_) fun _ => .of_none
        rw [List.drop_one, List.tail_cons] at hclosed ⊢
        obtain ⟨hclosed, -⟩ := Bool.and_eq_true_iff.mp hclosed
        have hbehind := of_decide_eq_true (Bool.and_eq_true_iff.mp hclosed).2
        rw [Nat.add_comm, List.drop_succ_cons, List.head?_drop] at hbehind
        have hlt := (List.getElem?_eq_some_iff.mp hbehind).1
        rw [List.length_cons]
        omega
      · refine .ite (fun _ => .of_le ?_) fun _ => .of_le hone
        have hle := ((List.takeWhile_sublist isOctalDigit).trans
          (List.take_sublist (if c ≤ '3' then 2 else 1) cs)).length_le
        rw [List.length_cons]
        omega

/-! ## Names and strings -/

theorem readName_append {skip : Nat} {cs : List Char} (hskip : skip ≤ cs.length) (pos : Nat)
    (name : List Char) (escaped : Bool) (rest : List Char) :
    readName skip pos name escaped (cs ++ '\n' :: rest)
      = ((readName skip pos name escaped cs).1, (readName skip pos name escaped cs).2.1,
          (readName skip pos name escaped cs).2.2.1,
          (readName skip pos name escaped cs).2.2.2 ++ '\n' :: rest) := by
  induction cs generalizing skip pos name escaped with
  | nil =>
      obtain rfl := Nat.le_zero.mp hskip
      have hpart : isNamePart '\n' = false := by decide
      simp [readName, hpart]
  | cons c cs ih =>
      cases skip with
      | succ k => exact ih (Nat.le_of_succ_le_succ hskip) ..
      | zero =>
          rw [List.cons_append, readName, readName]
          split
          · exact ih (Nat.zero_le _) ..
          split
          · by_cases hu : cs.head? = some 'u'
            · obtain ⟨ds, rfl⟩ := List.head?_eq_some_iff.mp hu
              rw [readEscape?_append (List.cons_ne_nil _ _) (by simp)]
              split
              · rename_i hescape
                exact ih (escapesAtMost_readEscape? _ _ _ hescape) ..
              · rfl
            · have hu' : ¬ (cs ++ '\n' :: rest).head? = some 'u' := by
                rwa [head?_append_lineEnd (by decide)]
              simp only [if_neg hu, if_neg hu']
              split <;> split <;> rfl
          · rfl

/-- Where a semicolon on the next line would not be in the string, the string ends in
front of the line end, whatever stands behind it. -/
theorem readString_append {quote : Char} (hquote : quote ≠ '\n') (hsemicolon : quote ≠ ';')
    {skip : Nat} {cs : List Char} (hskip : skip ≤ cs.length) (pos : Nat) (units : List Nat)
    (hends : ∀ units' stop,
      readString quote skip pos units (cs ++ ['\n', ';']) ≠ .ok (units', stop, []))
    (rest : List Char) :
    readString quote skip pos units (cs ++ '\n' :: rest)
      = (readString quote skip pos units cs).map
          fun r => (r.1, r.2.1, r.2.2 ++ '\n' :: rest) := by
  induction cs generalizing skip pos units with
  | nil =>
      obtain rfl := Nat.le_zero.mp hskip
      simp [readString, hquote.symm, Except.map]
  | cons c cs ih =>
      cases skip with
      | succ k => exact ih (Nat.le_of_succ_le_succ hskip) _ _ hends
      | zero =>
          rw [List.cons_append, readString] at hends
          rw [List.cons_append, readString, readString]
          split
          · rfl
          rename_i hclosed
          rw [if_neg hclosed] at hends
          split
          · rfl
          rename_i hline
          rw [if_neg hline] at hends
          split
          · rename_i hc
            rw [if_pos hc] at hends
            -- A line end behind the backslash is part of the string, and so is the semicolon.
            by_cases hne : cs = []
            · subst hne
              simp [readString, readEscape?, isLineEnd, hsemicolon.symm] at hends
            by_cases hcr : cs = ['\r']
            · subst hcr
              simp [readString, readEscape?, hsemicolon.symm] at hends
            rw [readEscape?_append hne hcr] at hends ⊢
            cases hescape : readEscape? cs with
            | none => simp [hne, Except.map]
            | some escape =>
                obtain ⟨code, n⟩ := escape
                rw [hescape] at hends
                have hn := escapesAtMost_readEscape? _ _ _ hescape
                cases code with
                | none => exact ih hn _ _ hends
                | some code => exact ih hn _ _ hends
          · rename_i hc
            rw [if_neg hc] at hends
            exact ih (Nat.zero_le _) _ _ hends

/-! ## Numbers -/

theorem spanDigits_append {isDigit : Char → Bool} (h : isDigit '\n' = false)
    (cs rest : List Char) :
    spanDigits isDigit (cs ++ '\n' :: rest)
      = ((spanDigits isDigit cs).1, (spanDigits isDigit cs).2 ++ '\n' :: rest) := by
  have hinside : (isDigit '\n' || ('\n' : Char) = '_') = false := by rw [h]; rfl
  simp only [spanDigits]
  rw [takeWhile_append_lineEnd hinside, dropWhile_append_lineEnd hinside]

theorem readSign_append (cs rest : List Char) :
    readSign (cs ++ '\n' :: rest)
      = ((readSign cs).1, (readSign cs).2.1, (readSign cs).2.2 ++ '\n' :: rest) := by
  cases cs with
  | nil => rfl
  | cons c cs =>
      by_cases hminus : c = '-'
      · subst hminus
        rfl
      by_cases hplus : c = '+'
      · subst hplus
        rfl
      simp [readSign, hminus, hplus]

theorem readExponent?_append (cs rest : List Char) :
    readExponent? (cs ++ '\n' :: rest)
      = (readExponent? cs).map fun r => (r.1, r.2.1, r.2.2 ++ '\n' :: rest) := by
  cases cs with
  | nil => rfl
  | cons c cs =>
      rw [List.cons_append, readExponent?, readExponent?, readSign_append]
      dsimp only
      rw [spanDigits_append (by decide)]
      split
      · dsimp only
        split <;> rfl
      · rfl

theorem readFraction_append (cs rest : List Char) :
    readFraction (cs ++ '\n' :: rest)
      = ((readFraction cs).1, (readFraction cs).2.1, (readFraction cs).2.2 ++ '\n' :: rest) := by
  cases cs with
  | nil => rfl
  | cons c cs =>
      by_cases hpoint : c = '.'
      · subst hpoint
        rw [List.cons_append, readFraction, readFraction, spanDigits_append (by decide)]
      simp [readFraction, hpoint]

theorem readRadix_append {isDigit : Char → Bool} (h : isDigit '\n' = false) (base pos : Nat)
    (cs rest : List Char) :
    readRadix base isDigit pos (cs ++ '\n' :: rest)
      = ((readRadix base isDigit pos cs).1, (readRadix base isDigit pos cs).2.1,
          (readRadix base isDigit pos cs).2.2 ++ '\n' :: rest) := by
  unfold readRadix
  rw [spanDigits_append h]
  generalize spanDigits isDigit cs = digits
  obtain ⟨digits, ds⟩ := digits
  cases ds with
  | nil => rfl
  | cons d ds =>
      by_cases hbig : d = 'n'
      · subst hbig
        rfl
      simp [hbig]

theorem readDecimal_append (pos : Nat) (cs rest : List Char) :
    readDecimal pos (cs ++ '\n' :: rest)
      = ((readDecimal pos cs).1, (readDecimal pos cs).2.1,
          (readDecimal pos cs).2.2 ++ '\n' :: rest) := by
  unfold readDecimal
  rw [spanDigits_append (by decide)]
  generalize spanDigits Char.isDigit cs = whole
  obtain ⟨whole, ds⟩ := whole
  dsimp only
  split
  · rfl
  cases ds with
  | nil => rfl
  | cons d ds =>
      by_cases hbig : d = 'n'
      · subst hbig
        rfl
      have hfraction := readFraction_append (d :: ds) rest
      have hexponent := readExponent?_append (readFraction (d :: ds)).2.2 rest
      rw [List.cons_append] at hfraction ⊢
      simp only [hbig, hfraction, hexponent, List.cons.injEq, false_and, imp_self, implies_true]
      cases readExponent? (readFraction (d :: ds)).2.2 <;> rfl

theorem readNumber_append (pos : Nat) (cs rest : List Char) :
    readNumber pos (cs ++ '\n' :: rest)
      = ((readNumber pos cs).1, (readNumber pos cs).2.1,
          (readNumber pos cs).2.2 ++ '\n' :: rest) := by
  by_cases hzero : ∃ marker ds, cs = '0' :: marker :: ds
  · obtain ⟨marker, ds, rfl⟩ := hzero
    rw [List.cons_append, List.cons_append, readNumber, readNumber]
    split
    · exact readRadix_append (by decide) ..
    split
    · exact readRadix_append (by decide) ..
    split
    · exact readRadix_append (by decide) ..
    · exact readDecimal_append pos ('0' :: marker :: ds) rest
  · rw [readNumber.eq_2 _ _ fun marker ds h => hzero ⟨marker, ds, h⟩, ← readDecimal_append]
    by_cases honly : cs = ['0']
    · subst honly
      rfl
    · refine readNumber.eq_2 _ _ fun marker ds h => ?_
      rcases cs with _ | ⟨c, _ | ⟨d, cs⟩⟩
      · cases h
      · exact honly (by rw [List.head_eq_of_cons_eq h])
      · exact hzero ⟨d, cs, by rw [List.head_eq_of_cons_eq h]⟩

/-! ## Tokens -/

theorem firstMatch?_append {texts : List String} (h : ∀ t ∈ texts, '\n' ∉ t.toList)
    (cs rest : List Char) : firstMatch? texts (cs ++ '\n' :: rest) = firstMatch? texts cs := by
  induction texts with
  | nil => rfl
  | cons t texts ih =>
      have ht := isPrefixOf_append_lineEnd (h t (List.mem_cons_self ..)) cs rest
      have ih := ih fun u hu => h u (List.mem_cons_of_mem _ hu)
      unfold firstMatch? at ih ⊢
      rw [List.find?_cons, List.find?_cons, ht, ih]

theorem readPunct?_append {cs : List Char} (hne : cs ≠ []) (rest : List Char) :
    readPunct? (cs ++ '\n' :: rest) = readPunct? cs := by
  unfold readPunct?
  rw [firstMatch?_append (by decide)]
  split
  · rfl
  · rcases cs with _ | ⟨c, _ | ⟨d, cs⟩⟩
    · exact absurd rfl hne
    · simp
    · by_cases hchain : c = '?' ∧ d = '.'
      · obtain ⟨rfl, rfl⟩ := hchain
        simp only [List.cons_append]
        rw [any_head?_append_lineEnd (by decide)]
      · rw [not_and] at hchain
        simp +contextual [hchain]

/-- Only a string can have a part in the next line. -/
theorem readToken_append_of_string {cs : List Char} (hne : cs ≠ []) (pos : Nat) (rest : List Char)
    (hstring : ∀ quote ds, cs = quote :: ds → quote = '"' ∨ quote = '\'' →
      readString quote 0 (pos + 1) [] (ds ++ '\n' :: rest)
        = (readString quote 0 (pos + 1) [] ds).map fun r => (r.1, r.2.1, r.2.2 ++ '\n' :: rest)) :
    readToken pos (cs ++ '\n' :: rest)
      = ((readToken pos cs).1, (readToken pos cs).2.1,
          (readToken pos cs).2.2 ++ '\n' :: rest) := by
  obtain ⟨c, cs, rfl⟩ := List.exists_cons_of_ne_nil hne
  have hdigit : Char.isDigit '\n' = false := by decide
  have hname : isNameStart '\n' = false := by decide
  simp only [List.cons_append, readToken]
  split
  · rw [← List.cons_append, readName_append (Nat.zero_le _)]
    dsimp only
    split <;> rfl
  split
  · rename_i hquote
    rw [Bool.or_eq_true, decide_eq_true_eq, decide_eq_true_eq] at hquote
    rw [hstring c cs rfl hquote]
    cases readString c 0 (pos + 1) [] cs <;> rfl
  rw [any_head?_append_lineEnd hdigit]
  split
  · rw [← List.cons_append, readNumber_append]
    dsimp only
    rw [any_head?_append_lineEnd hname]
    split <;> rfl
  rw [any_head?_append_lineEnd (by decide)]
  split
  · rw [readName_append (Nat.zero_le _)]
  rw [← List.cons_append, readPunct?_append hne]
  split
  · rename_i text hpunct
    have hstands := stands_of_readPunct? hpunct
    have hle : text.length ≤ (c :: cs).length := by
      rw [← String.length_toList]
      exact hstands.1.length_le
    rw [List.drop_append_of_le_length hle]
  · rfl

theorem readToken_string {pos : Nat} {quote : Char} (hquote : quote = '"' ∨ quote = '\'')
    (cs : List Char) :
    readToken pos (quote :: cs) = match readString quote 0 (pos + 1) [] cs with
      | .ok (units, stop, after) =>
        (.string ((joinSurrogates? units.reverse).map String.ofList), stop, after)
      | .error stop => (.invalid ⟨pos, stop⟩, pos + 1, cs) := by
  rcases hquote with rfl | rfl <;> rfl

/-- A token that the next line has no part in is the same whatever stands there. -/
theorem readToken_append {cs : List Char} (hne : cs ≠ []) (pos : Nat)
    (hends : (readToken pos (cs ++ ['\n', ';'])).2.2 ≠ []) (rest : List Char) :
    readToken pos (cs ++ '\n' :: rest)
      = ((readToken pos cs).1, (readToken pos cs).2.1,
          (readToken pos cs).2.2 ++ '\n' :: rest) := by
  refine readToken_append_of_string hne pos rest ?_
  rintro quote ds rfl hquote
  have hother : quote ≠ '\n' ∧ quote ≠ ';' := by rcases hquote with rfl | rfl <;> decide
  refine readString_append hother.1 hother.2 (Nat.zero_le _) _ _ ?_ rest
  intro units stop h
  rw [List.cons_append, readToken_string hquote, h] at hends
  exact hends rfl

/-! ## Gaps -/

theorem skipGap_newline (gap : Gap) (pos : Nat) (newline : Bool) (cs : List Char) :
    skipGap gap pos true cs
      = ((skipGap gap pos newline cs).1, true, (skipGap gap pos newline cs).2.2) := by
  induction cs generalizing gap pos newline with
  | nil => rfl
  | cons c cs ih =>
      cases gap with
      | blank =>
          simp only [skipGap]
          split
          · exact ih ..
          split
          · exact ih ..
          split
          · exact ih ..
          split
          · exact ih ..
          · rfl
      | lineComment =>
          simp only [skipGap]
          split <;> exact ih ..
      | blockComment =>
          simp only [skipGap]
          split
          · exact ih ..
          · rw [Bool.true_or]
            exact ih ..
      | blockOpen | blockClose => exact ih ..

/-- A gap in which a semicolon on the next line would not be ends in the text, or it
goes on to that line. -/
theorem skipGap_append (gap : Gap) {cs : List Char} (hgap : gap ≠ .blockClose ∨ cs ≠ [])
    (pos : Nat) (newline : Bool)
    (hends : (skipGap gap pos newline (cs ++ ['\n', ';'])).2.2 ≠ []) (rest : List Char) :
    skipGap gap pos newline (cs ++ '\n' :: rest)
      = if (skipGap gap pos newline cs).2.2 = [] then
          skipGap .blank (pos + byteSize cs + 1) true rest
        else ((skipGap gap pos newline cs).1, (skipGap gap pos newline cs).2.1,
          (skipGap gap pos newline cs).2.2 ++ '\n' :: rest) := by
  induction cs generalizing gap pos newline with
  | nil =>
      cases gap with
      | blank | lineComment => rfl
      | blockOpen | blockComment => exact absurd rfl hends
      | blockClose => exact absurd rfl (hgap.resolve_left fun h => h rfl)
  | cons c cs ih =>
      have hsize : pos + byteSize (c :: cs) + 1 = pos + c.utf8Size + byteSize cs + 1 := by
        rw [byteSize_cons, ← Nat.add_assoc]
      have hslash : ∀ rest, ((cs ++ '\n' :: rest).head? = some '/') = (cs.head? = some '/') :=
        fun rest => head?_append_lineEnd (by decide) cs rest
      have hstar : ∀ rest, ((cs ++ '\n' :: rest).head? = some '*') = (cs.head? = some '*') :=
        fun rest => head?_append_lineEnd (by decide) cs rest
      rw [hsize]
      cases gap with
      | blank =>
          simp only [List.cons_append, skipGap, hslash, hstar] at hends ⊢
          by_cases hline : isLineEnd c = true
          · simp only [if_pos hline] at hends ⊢
            exact ih .blank (.inl (by simp)) _ _ hends
          simp only [if_neg hline] at hends ⊢
          by_cases hblank : isGapChar c = true
          · simp only [if_pos hblank] at hends ⊢
            exact ih .blank (.inl (by simp)) _ _ hends
          simp only [if_neg hblank] at hends ⊢
          split
          · rename_i hopen
            rw [if_pos hopen] at hends
            exact ih .lineComment (.inl (by simp)) _ _ hends
          rename_i hopen
          rw [if_neg hopen] at hends
          split
          · rename_i hopen
            rw [if_pos hopen] at hends
            exact ih .blockOpen (.inl (by simp)) _ _ hends
          · rfl
      | lineComment =>
          simp only [List.cons_append, skipGap] at hends ⊢
          by_cases hline : isLineEnd c = true
          · simp only [if_pos hline] at hends ⊢
            exact ih .blank (.inl (by simp)) _ _ hends
          · simp only [if_neg hline] at hends ⊢
            exact ih .lineComment (.inl (by simp)) _ _ hends
      | blockComment =>
          simp only [List.cons_append, skipGap, hslash] at hends ⊢
          split
          · rename_i hclose
            rw [if_pos hclose] at hends
            refine ih .blockClose (.inr fun hnil => ?_) _ _ hends
            simp [hnil] at hclose
          · rename_i hclose
            rw [if_neg hclose] at hends
            exact ih .blockComment (.inl (by simp)) _ _ hends
      | blockOpen => exact ih .blockComment (.inl (by simp)) _ _ hends
      | blockClose => exact ih .blank (.inl (by simp)) _ _ hends

/-! ## Cursors -/

namespace Cursor

/-- Whether what stands next to an offset is over at the end of the text, or at the end
of the line behind it: a semicolon on the next line would be read as a token. -/
def EndsLine (offset : Nat) (cs : List Char) : Prop :=
  (start offset (cs ++ ['\n', ';'])).here = [';'] ∨
    (start offset (cs ++ ['\n', ';'])).after ≠ []

instance (offset : Nat) (cs : List Char) : Decidable (EndsLine offset cs) :=
  inferInstanceAs (Decidable (_ ∨ _))

/-- A cursor in a text with more text behind it. -/
def before (c : Cursor) (rest : List Char) : Cursor :=
  { c with here := c.here ++ rest, after := c.after ++ rest }

/-- A cursor on the first token of a line, behind a token that ended at an offset. -/
def onNewLine (c : Cursor) (prevStop : Nat) : Cursor :=
  { c with token := { c.token with afterNewline := true }, prevStop := prevStop }

variable {offset : Nat} {cs : List Char}

theorem EndsLine.gap (h : EndsLine offset cs) :
    (skipGap .blank offset false (cs ++ ['\n', ';'])).2.2 ≠ [] := by
  intro hnil
  rcases h with h | h
  · exact absurd (hnil.symm.trans h) nofun
  · unfold start at h
    generalize skipGap .blank offset false (cs ++ ['\n', ';']) = gap at h hnil
    obtain ⟨pos, newline, here⟩ := gap
    obtain rfl : here = [] := hnil
    exact h rfl

/-- A token stays as it is when a line end and more text come behind it. -/
theorem start_append_of_here (h : EndsLine offset cs) (hhere : (start offset cs).here ≠ [])
    (rest : List Char) :
    start offset (cs ++ '\n' :: rest) = (start offset cs).before ('\n' :: rest) := by
  have hgap := fun rest => skipGap_append .blank (.inl nofun) offset false h.gap rest
  have hhere : (skipGap .blank offset false cs).2.2 ≠ [] := hhere
  simp only [if_neg hhere] at hgap
  have hends : (readToken (skipGap .blank offset false cs).1
      ((skipGap .blank offset false cs).2.2 ++ ['\n', ';'])).2.2 ≠ [] := by
    unfold EndsLine start at h
    rw [hgap] at h
    refine h.resolve_left fun hsemicolon => ?_
    have hlength := congrArg List.length hsemicolon
    simp at hlength
  unfold start
  rw [hgap]
  dsimp only
  rw [readToken_append hhere _ hends]
  rfl

theorem start_lineEnd (offset : Nat) (rest : List Char) :
    start offset ('\n' :: rest) = (start (offset + 1) rest).onNewLine offset := by
  have hgap : skipGap .blank offset false ('\n' :: rest) = skipGap .blank (offset + 1) true rest :=
    rfl
  rw [skipGap_newline _ _ false] at hgap
  unfold start
  rw [hgap]
  rfl

/-- Where no token is left, the next line goes on. -/
theorem start_append_of_nil (h : EndsLine offset cs) (hhere : (start offset cs).here = [])
    (rest : List Char) :
    start offset (cs ++ '\n' :: rest)
      = (start (offset + byteSize cs + 1) rest).onNewLine offset := by
  have hgap := skipGap_append .blank (.inl nofun) offset false h.gap rest
  have hhere : (skipGap .blank offset false cs).2.2 = [] := hhere
  rw [if_pos hhere, skipGap_newline _ _ false] at hgap
  unfold start
  rw [hgap]
  rfl

end Cursor

/-! ## Other readers -/

theorem readRegex?_append {inClass skip : Bool} {pos stop : Nat} {cs after : List Char}
    (h : readRegex? inClass skip pos cs = some (stop, after)) (rest : List Char) :
    readRegex? inClass skip pos (cs ++ '\n' :: rest) = some (stop, after ++ '\n' :: rest) := by
  induction cs generalizing inClass skip pos with
  | nil => cases h
  | cons c cs ih =>
      simp only [List.cons_append, readRegex?] at h ⊢
      split at h
      · cases h
      rename_i hline
      rw [if_neg hline]
      split at h
      · rw [if_pos ‹_›]
        exact ih h
      rw [if_neg ‹_›]
      split at h
      · rw [if_pos ‹_›]
        exact ih h
      rw [if_neg ‹_›]
      split at h
      · rw [if_pos ‹_›]
        exact ih h
      rw [if_neg ‹_›]
      split at h
      · rw [if_pos ‹_›]
        exact ih h
      rw [if_neg ‹_›]
      split at h
      · cases h
        rw [if_pos ‹_›, readName_append (Nat.zero_le _)]
      · rw [if_neg ‹_›]
        exact ih h

theorem readTemplateText?_append {skip ended : Bool} {pos stop : Nat} {cs after : List Char}
    (h : readTemplateText? skip pos cs = some (ended, stop, after)) (rest : List Char) :
    readTemplateText? skip pos (cs ++ rest) = some (ended, stop, after ++ rest) := by
  induction cs generalizing skip pos with
  | nil => cases h
  | cons c cs ih =>
      simp only [List.cons_append, readTemplateText?] at h ⊢
      split at h
      · rw [if_pos ‹_›]
        exact ih h
      rw [if_neg ‹_›]
      split at h
      · rw [if_pos ‹_›]
        exact ih h
      rw [if_neg ‹_›]
      split at h
      · cases h
        rw [if_pos ‹_›]
      rw [if_neg ‹_›]
      split at h
      · rw [if_pos ‹_›]
        cases cs with
        | nil => cases h
        | cons d cs =>
            by_cases hbrace : d = '\x7b'
            · subst hbrace
              cases h
              rfl
            · simp only [hbrace, List.cons_append, List.cons.injEq, false_and, imp_self,
                implies_true] at h ⊢
              exact ih h
      · rw [if_neg ‹_›]
        exact ih h

end Recompose.Script
