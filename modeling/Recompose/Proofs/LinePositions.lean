import Mathlib.Data.List.DropRight
import Recompose.LineIndex
import Recompose.Proofs.EditLayout

/-!
# Lines and columns by counting

What a line index finds by bisection is what counting the bytes in front of an offset
gives: the line is the number of line feeds among them, and the column is the number of
bytes behind the last one (`lineCol?_ofText`). An offset may lie inside of a character.

A search leaves smaller offsets in front of the place that it finds and larger ones
behind it (`searches_search`). The line found is therefore the last one that starts at
or in front of the offset (`isLastStart_lineAt`), and both counts follow from where lines
start (`mem_starts_iff`).
-/

namespace Recompose

def lineFeed : UInt8 := 10

/-- The line feed is the encoding of no other character, nor a part of one: each byte of
a longer encoding has its highest bit set. -/
theorem not_mem_utf8EncodeChar {c : Char} (hc : c ≠ '\n') : lineFeed ∉ String.utf8EncodeChar c := by
  have hbyte : ∀ n : Nat, n < 256 → n ≠ 10 → lineFeed ≠ UInt8.ofNat n := by
    intro n hn hne heq
    have hnat : lineFeed.toNat = (UInt8.ofNat n).toNat := congrArg UInt8.toNat heq
    rw [UInt8.toNat_ofNat', Nat.mod_eq_of_lt hn] at hnat
    exact hne hnat.symm
  have hval : c.val.toNat ≠ 10 := fun h => hc (Char.ext (UInt32.toNat_inj.mp h))
  unfold String.utf8EncodeChar
  dsimp only
  split_ifs <;> simp only [List.mem_cons, List.not_mem_nil, or_false, not_or]
  · exact hbyte _ (by omega) hval
  · exact ⟨hbyte _ (by omega) (by omega), hbyte _ (by omega) (by omega)⟩
  · exact ⟨hbyte _ (by omega) (by omega), hbyte _ (by omega) (by omega),
      hbyte _ (by omega) (by omega)⟩
  · exact ⟨hbyte _ (by omega) (by omega), hbyte _ (by omega) (by omega),
      hbyte _ (by omega) (by omega), hbyte _ (by omega) (by omega)⟩

namespace LineIndex

/-! ## Searching -/

/-- What a search for an offset in ascending ones finds: its place, or a place with
smaller ones in front and larger ones behind. -/
def Searches (starts : List Nat) (offset : Nat) : Except Nat Nat → Prop
  | .ok place => starts[place]? = some offset
  | .error place => place ≤ starts.length ∧
      ∀ i s, starts[i]? = some s → (i < place → s < offset) ∧ (place ≤ i → offset < s)

section Search

variable {starts : List Nat} {offset lo hi : Nat}

theorem lt_of_getElem? (hasc : starts.Pairwise (· < ·)) {i j s t : Nat}
    (hs : starts[i]? = some s) (ht : starts[j]? = some t) (hij : i < j) : s < t := by
  obtain ⟨hi, rfl⟩ := List.getElem?_eq_some_iff.mp hs
  obtain ⟨hj, rfl⟩ := List.getElem?_eq_some_iff.mp ht
  exact List.pairwise_iff_getElem.mp hasc i j hi hj hij

theorem getElem?_eq_getD {i : Nat} (h : i < starts.length) :
    starts[i]? = some (starts.getD i 0) := by
  rw [List.getD_eq_getElem?_getD, List.getElem?_eq_getElem h, Option.getD_some]

/-- Bisection keeps that what is in front of the candidates is smaller, and what is behind
them is larger. -/
theorem searches_of_parted (hasc : starts.Pairwise (· < ·)) (hle : lo ≤ hi)
    (hhi : hi ≤ starts.length) (hfront : ∀ i s, i < lo → starts[i]? = some s → s < offset)
    (hbehind : ∀ i s, hi ≤ i → starts[i]? = some s → offset < s) :
    Searches starts offset (search starts offset lo hi) := by
  fun_induction search starts offset lo hi with
  | case1 lo hi hlt mid start hstart =>
      show starts[mid]? = some offset
      rw [← hstart]
      exact getElem?_eq_getD (by omega)
  | case2 lo hi hlt mid start hne hless ih =>
      have hget : starts[mid]? = some start := getElem?_eq_getD (by omega)
      refine ih (by omega) hhi (fun i s hi hs => ?_) hbehind
      rcases Nat.eq_or_lt_of_le (Nat.le_of_lt_succ hi) with rfl | hi
      · rw [hs] at hget
        exact Option.some.inj hget ▸ hless
      · exact Nat.lt_trans (lt_of_getElem? hasc hs hget hi) hless
  | case3 lo hi hlt mid start hne hnotless ih =>
      have hget : starts[mid]? = some start := getElem?_eq_getD (by omega)
      refine ih (by omega) (by omega) hfront fun i s hi hs => ?_
      have hlarger : offset < start := by omega
      rcases Nat.eq_or_lt_of_le hi with rfl | hi
      · rw [hs] at hget
        exact Option.some.inj hget ▸ hlarger
      · exact Nat.lt_trans hlarger (lt_of_getElem? hasc hget hs hi)
  | case4 lo hi hdone =>
      obtain rfl : lo = hi := by omega
      exact ⟨hhi, fun i s hs => ⟨fun hi => hfront i s hi hs, fun hi => hbehind i s hi hs⟩⟩

theorem searches_search (hasc : starts.Pairwise (· < ·)) (offset : Nat) :
    Searches starts offset (search starts offset 0 starts.length) := by
  refine searches_of_parted hasc (Nat.zero_le _) (Nat.le_refl _) nofun fun i s hi hs => ?_
  rw [List.getElem?_eq_none hi] at hs
  cases hs

end Search

/-! ## The line of an offset -/

/-- The last line that starts at or in front of an offset, and its start. -/
structure IsLastStart (starts : List Nat) (offset line start : Nat) : Prop where
  getElem? : starts[line]? = some start
  le : start ≤ offset
  behind : ∀ i s, line < i → starts[i]? = some s → offset < s

theorem isLastStart_lineAt {index : LineIndex} (hasc : index.starts.Pairwise (· < ·))
    (hzero : index.starts[0]? = some 0) (offset : Nat) :
    IsLastStart index.starts offset (index.lineAt offset)
      (index.starts.getD (index.lineAt offset) 0) := by
  have hfound := searches_search hasc offset
  unfold lineAt
  generalize search index.starts offset 0 index.starts.length = found at hfound
  cases found with
  | ok line =>
      dsimp only
      have hline : index.starts[line]? = some offset := hfound
      rw [List.getD_eq_getElem?_getD, hline]
      exact ⟨hline, Nat.le_refl _, fun i s hi hs => lt_of_getElem? hasc hline hs hi⟩
  | error place =>
      obtain ⟨hle, hparts⟩ := hfound
      dsimp only
      -- The first line starts in front of every offset, so the place is not the first one.
      have hpos : 0 < place := by
        by_contra hnot
        exact absurd ((hparts 0 0 hzero).2 (by omega)) (Nat.not_lt_zero _)
      have hget := getElem?_eq_getD (show place - 1 < index.starts.length by omega)
      exact ⟨hget, Nat.le_of_lt ((hparts _ _ hget).1 (by omega)), fun i s hi hs =>
        (hparts i s hs).2 (by omega)⟩

theorem IsLastStart.countP {starts : List Nat} {offset line start : Nat}
    (h : IsLastStart starts offset line start) (hasc : starts.Pairwise (· < ·)) :
    starts.countP (· ≤ offset) = line + 1 := by
  obtain ⟨hlt, -⟩ := List.getElem?_eq_some_iff.mp h.getElem?
  have hfront : (starts.take (line + 1)).countP (· ≤ offset) = line + 1 := by
    have hall : ∀ s ∈ starts.take (line + 1), decide (s ≤ offset) = true := by
      intro s hs
      obtain ⟨i, hi⟩ := List.mem_iff_getElem?.mp hs
      rw [List.getElem?_take, Option.ite_none_right_eq_some] at hi
      obtain ⟨hle, hi⟩ := hi
      refine decide_eq_true ?_
      rcases Nat.eq_or_lt_of_le (Nat.le_of_lt_succ hle) with rfl | hlt
      · rw [h.getElem?] at hi
        exact Option.some.inj hi ▸ h.le
      · exact Nat.le_trans (Nat.le_of_lt (lt_of_getElem? hasc hi h.getElem? hlt)) h.le
    rw [List.countP_eq_length.mpr hall, List.length_take, Nat.min_eq_left hlt]
  have hbehind : (starts.drop (line + 1)).countP (· ≤ offset) = 0 := by
    refine List.countP_eq_zero.mpr fun s hs => ?_
    obtain ⟨i, hi⟩ := List.mem_iff_getElem?.mp hs
    rw [List.getElem?_drop] at hi
    have := h.behind _ s (by omega) hi
    simp only [decide_eq_true_eq]
    omega
  rw [← List.take_append_drop (line + 1) starts, List.countP_append, hfront, hbehind]

/-! ## Where lines start -/

section Starts

theorem utf8_lineEnd (cs : List Char) : utf8 ('\n' :: cs) = lineFeed :: utf8 cs := rfl

theorem getElem?_utf8_cons (c : Char) (cs : List Char) (k : Nat) :
    (utf8 (c :: cs))[k]? = if k < c.utf8Size then (String.utf8EncodeChar c)[k]?
      else (utf8 cs)[k - c.utf8Size]? := by
  rw [show utf8 (c :: cs) = String.utf8EncodeChar c ++ utf8 cs from rfl, List.getElem?_append,
    String.length_utf8EncodeChar]

/-- Lines start behind line feeds. -/
theorem mem_startsAfterFeeds_iff {base s : Nat} {cs : List Char} :
    s ∈ startsAfterFeeds base cs ↔ ∃ k, (utf8 cs)[k]? = some lineFeed ∧ s = base + k + 1 := by
  induction cs generalizing base with
  | nil => simp [startsAfterFeeds, utf8]
  | cons c cs ih =>
      rw [startsAfterFeeds]
      split
      · rename_i hc
        subst hc
        rw [List.mem_cons, ih, utf8_lineEnd]
        constructor
        · rintro (rfl | ⟨k, hk, rfl⟩)
          · exact ⟨0, rfl, rfl⟩
          · exact ⟨k + 1, hk, by rw [show ('\n' : Char).utf8Size = 1 from rfl]; omega⟩
        · rintro ⟨k, hk, rfl⟩
          cases k with
          | zero => exact .inl rfl
          | succ k => exact .inr ⟨k, hk, by rw [show ('\n' : Char).utf8Size = 1 from rfl]; omega⟩
      · rename_i hc
        rw [ih]
        constructor
        · rintro ⟨k, hk, rfl⟩
          refine ⟨c.utf8Size + k, ?_, by omega⟩
          rwa [getElem?_utf8_cons, if_neg (by omega), Nat.add_sub_cancel_left]
        · rintro ⟨k, hk, rfl⟩
          rw [getElem?_utf8_cons] at hk
          split at hk
          · exact absurd (List.mem_of_getElem? hk) (not_mem_utf8EncodeChar hc)
          · exact ⟨k - c.utf8Size, hk, by omega⟩

theorem lt_of_mem_startsAfterFeeds {base s : Nat} {cs : List Char}
    (h : s ∈ startsAfterFeeds base cs) : base < s := by
  obtain ⟨k, -, rfl⟩ := mem_startsAfterFeeds_iff.mp h
  omega

theorem pairwise_startsAfterFeeds (base : Nat) (cs : List Char) :
    (startsAfterFeeds base cs).Pairwise (· < ·) := by
  induction cs generalizing base with
  | nil => exact .nil
  | cons c cs ih =>
      rw [startsAfterFeeds]
      split
      · exact List.pairwise_cons.mpr ⟨fun _ => lt_of_mem_startsAfterFeeds, ih _⟩
      · exact ih _

/-- As many lines start behind the beginning as there are line feeds in front. -/
theorem countP_startsAfterFeeds (base k : Nat) (cs : List Char) :
    (startsAfterFeeds base cs).countP (· ≤ base + k) = ((utf8 cs).take k).count lineFeed := by
  induction cs generalizing base k with
  | nil => simp [startsAfterFeeds, utf8]
  | cons c cs ih =>
      have hcount : (String.utf8EncodeChar c).count lineFeed = if c = '\n' then 1 else 0 := by
        split
        · rename_i hc
          rw [hc]
          rfl
        · exact List.count_eq_zero.mpr (not_mem_utf8EncodeChar ‹_›)
      have hlines : (startsAfterFeeds base (c :: cs)).countP (· ≤ base + k)
          = (startsAfterFeeds (base + c.utf8Size) cs).countP (· ≤ base + k)
            + if c = '\n' ∧ c.utf8Size ≤ k then 1 else 0 := by
        rw [startsAfterFeeds]
        split <;> simp [List.countP_cons, *]
      rw [hlines, show utf8 (c :: cs) = String.utf8EncodeChar c ++ utf8 cs from rfl,
        List.take_append, List.count_append, String.length_utf8EncodeChar]
      rcases Nat.lt_or_ge k c.utf8Size with hk | hk
      · -- The offset lies in front of the end of the first character.
        have hnone : (startsAfterFeeds (base + c.utf8Size) cs).countP (· ≤ base + k) = 0 := by
          refine List.countP_eq_zero.mpr fun s hs => ?_
          have := lt_of_mem_startsAfterFeeds hs
          simp only [decide_eq_true_eq]
          omega
        have hfirst : ((String.utf8EncodeChar c).take k).count lineFeed = 0 := by
          refine List.count_eq_zero.mpr fun hmem => ?_
          by_cases hc : c = '\n'
          · subst hc
            obtain rfl : k = 0 := Nat.lt_one_iff.mp hk
            cases hmem
          · exact not_mem_utf8EncodeChar hc (List.mem_of_mem_take hmem)
        rw [hnone, hfirst, Nat.sub_eq_zero_of_le (Nat.le_of_lt hk), if_neg (by omega)]
        rfl
      · have hlength : (String.utf8EncodeChar c).length ≤ k := by
          rwa [String.length_utf8EncodeChar]
        have hoffset : base + k = base + c.utf8Size + (k - c.utf8Size) := by omega
        rw [List.take_of_length_le hlength, hcount, hoffset, ih, Nat.add_comm]
        simp [hk]

end Starts

/-! ## Positions -/

section Positions

variable {source : String} {offset : Nat}

theorem pairwise_starts_ofText (source : String) : (ofText source).starts.Pairwise (· < ·) :=
  List.pairwise_cons.mpr
    ⟨fun _ => lt_of_mem_startsAfterFeeds, pairwise_startsAfterFeeds 0 source.toList⟩

/-- A line starts at the beginning, and behind each line feed. -/
theorem mem_starts_ofText_iff {s : Nat} :
    s ∈ (ofText source).starts ↔ s = 0 ∨ ∃ k, (bytes source)[k]? = some lineFeed ∧ s = k + 1 := by
  show s ∈ 0 :: startsAfterFeeds 0 source.toList ↔ _
  rw [List.mem_cons, mem_startsAfterFeeds_iff, bytes_eq]
  simp only [Nat.zero_add]

/-- The start of the line of an offset. -/
def lineStart (index : LineIndex) (offset : Nat) : Nat := index.starts.getD (index.lineAt offset) 0

theorem isLastStart_ofText (source : String) (offset : Nat) :
    IsLastStart (ofText source).starts offset ((ofText source).lineAt offset)
      ((ofText source).lineStart offset) :=
  isLastStart_lineAt (pairwise_starts_ofText source) rfl offset

/-- The line of an offset is the number of line feeds in front of it. -/
theorem lineAt_ofText (source : String) (offset : Nat) :
    (ofText source).lineAt offset = ((bytes source).take offset).count lineFeed := by
  have hline := (isLastStart_ofText source offset).countP (pairwise_starts_ofText source)
  have hfeeds := countP_startsAfterFeeds 0 offset source.toList
  have hfirst : (ofText source).starts.countP (· ≤ offset)
      = (startsAfterFeeds 0 source.toList).countP (· ≤ offset) + 1 :=
    List.countP_cons_of_pos (by simp)
  rw [Nat.zero_add, ← bytes_eq] at hfeeds
  omega

/-- No line feed stands between the start of the line and the offset. -/
theorem ne_lineFeed_of_lineStart_le {k : Nat} {b : UInt8} (hb : (bytes source)[k]? = some b)
    (hstart : (ofText source).lineStart offset ≤ k) (hk : k < offset) : b ≠ lineFeed := by
  rintro rfl
  obtain ⟨hget, hle, hbehind⟩ := isLastStart_ofText source offset
  obtain ⟨i, hi⟩ := List.mem_iff_getElem?.mp (mem_starts_ofText_iff.mpr (.inr ⟨k, hb, rfl⟩))
  have hasc := pairwise_starts_ofText source
  rcases Nat.lt_trichotomy i ((ofText source).lineAt offset) with hlt | rfl | hlt
  · have := lt_of_getElem? hasc hi hget hlt
    omega
  · have := Option.some.inj (hget.symm.trans hi)
    omega
  · have := hbehind i _ hlt hi
    omega

/-- The bytes between the start of the line and the offset are those behind the last line
feed. -/
theorem rtakeWhile_take (h : offset ≤ (bytes source).length) :
    (((bytes source).take offset).rtakeWhile (· ≠ lineFeed)).length
      = offset - (ofText source).lineStart offset := by
  obtain ⟨hget, hle, -⟩ := isLastStart_ofText source offset
  have hinside : ∀ k b, (bytes source)[k]? = some b → (ofText source).lineStart offset ≤ k →
      k < offset → b ≠ lineFeed := fun k b => ne_lineFeed_of_lineStart_le
  have hmem := mem_starts_ofText_iff.mp (List.mem_of_getElem? hget)
  generalize (ofText source).lineStart offset = start at hle hmem hinside ⊢
  have hsplit : (bytes source).take offset
      = (bytes source).take start ++ ((bytes source).drop start).take (offset - start) := by
    rw [← List.take_add, Nat.add_sub_cancel' hle]
  have hfront : ((bytes source).take start).reverse.takeWhile (· ≠ lineFeed) = [] := by
    rcases hmem with rfl | ⟨k, hk, rfl⟩
    · rfl
    · rw [List.take_add_one, hk, Option.toList_some, List.reverse_append, List.reverse_singleton,
        List.singleton_append, List.takeWhile_cons_of_neg (by simp)]
  have hbehind : ∀ b ∈ (((bytes source).drop start).take (offset - start)).reverse,
      decide (b ≠ lineFeed) = true := by
    intro b hb
    obtain ⟨i, hi⟩ := List.mem_iff_getElem?.mp (List.mem_reverse.mp hb)
    rw [List.getElem?_take, Option.ite_none_right_eq_some, List.getElem?_drop] at hi
    obtain ⟨hlt, hi⟩ := hi
    exact decide_eq_true (hinside _ b hi (by omega) (by omega))
  rw [List.rtakeWhile, List.length_reverse, hsplit, List.reverse_append,
    List.takeWhile_append_of_pos hbehind, hfront, List.append_nil, List.length_reverse,
    List.length_take, List.length_drop]
  omega

theorem le_size_of_mem_starts {s : Nat} (h : s ∈ (ofText source).starts) :
    s ≤ (bytes source).length := by
  rcases mem_starts_ofText_iff.mp h with rfl | ⟨k, hk, rfl⟩
  · exact Nat.zero_le _
  · exact (List.getElem?_eq_some_iff.mp hk).1

end Positions

end LineIndex

namespace LineCol

/-- The position behind some bytes: as many lines down as there are line feeds among
them, and as many columns in as there are bytes behind the last line feed. -/
def behind (before : List UInt8) : LineCol :=
  ⟨before.count lineFeed, (before.rtakeWhile (· ≠ lineFeed)).length⟩

/-- On an earlier line, or further left on the same one. -/
def Before (p q : LineCol) : Prop := p.line < q.line ∨ p.line = q.line ∧ p.col < q.col

theorem Before.ne {p q : LineCol} (h : p.Before q) : p ≠ q := by
  rintro rfl
  unfold Before at h
  omega

end LineCol

namespace LineIndex

variable {source : String} {offset : Nat}

theorem size_ofText (source : String) : (ofText source).size = (bytes source).length := by
  rw [bytes_eq, length_utf8]
  rfl

/-- Positions are what counting the bytes in front gives. -/
theorem lineCol?_ofText (source : String) (offset : Nat) :
    (ofText source).lineCol? offset
      = if offset ≤ (bytes source).length then some (.behind ((bytes source).take offset))
        else none := by
  rw [lineCol?, size_ofText]
  refine ite_congr rfl (fun hle => ?_) fun _ => rfl
  rw [LineCol.behind, rtakeWhile_take hle, ← lineAt_ofText]
  rfl

/-- Further on, a position is on a later line, or on the same one and further right. -/
theorem before_behind {a b : Nat} (hab : a < b) (hb : b ≤ (bytes source).length) :
    (LineCol.behind ((bytes source).take a)).Before (.behind ((bytes source).take b)) := by
  have hcount : ((bytes source).take a).count lineFeed ≤ ((bytes source).take b).count lineFeed :=
    (List.take_sublist_take_left (Nat.le_of_lt hab)).count_le lineFeed
  rcases Nat.eq_or_lt_of_le hcount with heq | hlt
  · refine .inr ⟨heq, ?_⟩
    have hstart : (ofText source).lineStart a = (ofText source).lineStart b := by
      rw [lineStart, lineStart, lineAt_ofText, lineAt_ofText, heq]
    have hle := (isLastStart_ofText source a).le
    rw [LineCol.behind, LineCol.behind, rtakeWhile_take (by omega), rtakeWhile_take hb]
    show a - _ < b - _
    omega
  · exact .inl hlt

/-- An offset has a position exactly up to the end of the text, and it is the one that
counting gives. Positions are in the order of their offsets, so no two offsets have the
same one. The line of an offset is one of the lines and starts at or in front of it, and
no number is larger than the text. -/
theorem lineCol?_counts (source : String) :
    let index := ofText source
    (∀ offset, index.lineCol? offset = none ↔ (bytes source).length < offset) ∧
      (∀ offset, offset ≤ (bytes source).length →
        index.lineCol? offset = some (.behind ((bytes source).take offset))) ∧
      (∀ a b, a < b → b ≤ (bytes source).length →
        ∃ p q, index.lineCol? a = some p ∧ index.lineCol? b = some q ∧ p.Before q) ∧
      (∀ a b p, index.lineCol? a = some p → index.lineCol? b = some p → a = b) ∧
      (∀ offset, index.starts[index.lineAt offset]? = some (index.lineStart offset) ∧
        index.lineStart offset ≤ offset) ∧
      (∀ start ∈ index.starts, start ≤ (bytes source).length) := by
  intro index
  have hcol : ∀ offset, offset ≤ (bytes source).length →
      index.lineCol? offset = some (.behind ((bytes source).take offset)) := fun offset hle => by
    rw [lineCol?_ofText, if_pos hle]
  have hnone : ∀ offset, index.lineCol? offset = none ↔ (bytes source).length < offset := by
    intro offset
    rw [lineCol?_ofText]
    split <;> simp only [reduceCtorEq, true_iff, false_iff] <;> omega
  have horder : ∀ a b, a < b → b ≤ (bytes source).length →
      ∃ p q, index.lineCol? a = some p ∧ index.lineCol? b = some q ∧ p.Before q :=
    fun a b hab hb => ⟨_, _, hcol a (by omega), hcol b hb, before_behind hab hb⟩
  have hdiffer : ∀ a b p, a < b → index.lineCol? a = some p → index.lineCol? b ≠ some p := by
    intro a b p hab ha hb
    have hle : b ≤ (bytes source).length := by
      by_contra hnot
      rw [(hnone b).mpr (by omega)] at hb
      cases hb
    obtain ⟨_, _, hp, hq, hbefore⟩ := horder a b hab hle
    exact hbefore.ne (Option.some.inj ((hp.symm.trans ha).trans (hb.symm.trans hq)))
  refine ⟨hnone, hcol, horder, ?_, ?_, fun _ => le_size_of_mem_starts⟩
  · intro a b p ha hb
    rcases Nat.lt_trichotomy a b with hlt | heq | hlt
    · exact absurd hb (hdiffer a b p hlt ha)
    · exact heq
    · exact absurd ha (hdiffer b a p hlt hb)
  · exact fun offset => ⟨(isLastStart_ofText source offset).getElem?,
      (isLastStart_ofText source offset).le⟩

-- In the middle of a character, behind a line feed.
example : (ofText "a\n\u00e9").lineCol? 3 = some ⟨1, 1⟩ := by decide +kernel

end LineIndex

end Recompose
