import Recompose.Proofs.EditConflicts

/-!
# The text that edits make

Applying lays the result out in one walk over the sorted edits. Here the
result is described offset by offset instead, on the recorded edits and with no
sort: `itemsAt` lists what stands at one offset of the input, the insertions in
call order, then the replacement that starts there, then the byte itself unless
a replaced range covers it; `items` lists them for all offsets.

The bridge is `itemsFrom_cons`: over sorted edits that apply, the items from an
offset on are the bytes up to the next edit, that edit, and the items from its
end on. The walk of `layout` has the same shape, so the two agree by induction,
and the edits among the items are the sorted edits themselves
(`filterMap_edit?_itemsFrom`). The sort drops out of the description because it
is stable (`insertionsAt_sorted`) and because at most one replacement starts at
an offset.
-/

namespace Recompose

/-! ## Bytes -/

/-- The bytes of a text. -/
def bytes (s : String) : List UInt8 := s.toByteArray.data.toList

/-- The bytes of a list of characters. -/
def utf8 (cs : List Char) : List UInt8 := cs.flatMap String.utf8EncodeChar

theorem bytes_eq (s : String) : bytes s = utf8 s.toList := by
  rw [bytes, ← String.utf8Encode_toList, List.utf8Encode, List.toList_data_toByteArray, utf8]

theorem bytes_ofList (cs : List Char) : bytes (String.ofList cs) = utf8 cs := by
  rw [bytes_eq, String.toList_ofList]

@[simp] theorem utf8_append (xs ys : List Char) : utf8 (xs ++ ys) = utf8 xs ++ utf8 ys :=
  List.flatMap_append

@[simp] theorem length_utf8 (cs : List Char) : (utf8 cs).length = byteSize cs := by
  induction cs with
  | nil => rfl
  | cons c cs ih =>
      rw [byteSize_cons, ← ih, ← String.length_utf8EncodeChar c, ← List.length_append]
      rfl

theorem Rest.utf8_eq_drop {text cs : List Char} {n : Nat} (h : Rest text n cs) :
    utf8 cs = (utf8 text).drop n := by
  obtain ⟨pre, rfl, rfl⟩ := h
  rw [utf8_append, ← length_utf8, List.drop_left]

/-- The bytes at consecutive offsets. -/
theorem flatMap_range'_getElem? (l : List UInt8) (start n : Nat) :
    (List.range' start n).flatMap (fun k => l[k]?.toList) = (l.drop start).take n := by
  induction n generalizing start with
  | zero => simp
  | succ n ih =>
      rw [List.range'_succ, List.flatMap_cons, ih]
      rcases Nat.lt_or_ge start l.length with h | h
      · rw [List.getElem?_eq_getElem h, List.drop_eq_getElem_cons h, List.take_succ_cons]
        rfl
      · simp [List.drop_eq_nil_of_le h, List.drop_eq_nil_of_le (Nat.le_succ_of_le h), h]

/-! ## Offset by offset -/

/-- One item of an edited text. -/
inductive Item where
  /-- The byte of the input at an offset. -/
  | kept (offset : Nat)
  /-- The text of an edit. -/
  | edited (edit : Edit)

namespace Item

def offset? : Item → Option Nat
  | kept offset => some offset
  | edited _ => none

def edit? : Item → Option Edit
  | kept _ => none
  | edited e => some e

/-- The bytes of an item; past the end of the input there is none to keep. -/
def bytes (input : List UInt8) : Item → List UInt8
  | kept offset => input[offset]?.toList
  | edited e => Recompose.bytes e.text

end Item

/-- The insertions at an offset, in the order of the list. -/
def insertionsAt (edits : List Edit) (k : Nat) : List Edit :=
  edits.filter fun e => e.span.start == k && e.span.stop == k

/-- The edit that replaces text from an offset on. -/
def replacementAt? (edits : List Edit) (k : Nat) : Option Edit :=
  edits.find? fun e => e.span.start == k && k < e.span.stop

/-- Whether an edit replaces the byte at an offset. -/
def isCovered (edits : List Edit) (k : Nat) : Bool :=
  edits.any fun e => e.span.start ≤ k && k < e.span.stop

/-- What stands at one offset of the input. -/
def itemsAt (edits : List Edit) (k : Nat) : List Item :=
  (insertionsAt edits k).map .edited ++ (replacementAt? edits k).toList.map .edited
    ++ if isCovered edits k then [] else [.kept k]

/-- What stands at all offsets of an input of some size, its end included. -/
def items (size : Nat) (edits : List Edit) : List Item :=
  (List.range (size + 1)).flatMap (itemsAt edits)

/-- What stands from one offset of the input on. -/
def itemsFrom (size offset : Nat) (edits : List Edit) : List Item :=
  (List.range' offset (size + 1 - offset)).flatMap (itemsAt edits)

theorem items_eq_itemsFrom (size : Nat) (edits : List Edit) :
    items size edits = itemsFrom size 0 edits := by
  rw [items, itemsFrom, List.range_eq_range', Nat.sub_zero]

theorem filterMap_offset?_itemsAt (edits : List Edit) (k : Nat) :
    (itemsAt edits k).filterMap Item.offset? = if isCovered edits k then [] else [k] := by
  have hnone : ∀ es : List Edit, (es.map Item.edited).filterMap Item.offset? = [] := by
    intro es
    rw [List.filterMap_map, List.filterMap_eq_nil_iff]
    exact fun e _ => rfl
  rw [itemsAt, List.filterMap_append, List.filterMap_append, hnone, hnone]
  cases isCovered edits k <;> rfl

/-- Every byte that no edit replaces is kept once, and in order. -/
theorem filterMap_offset?_items (size : Nat) (edits : List Edit) :
    (items size edits).filterMap Item.offset?
      = (List.range (size + 1)).filter fun k => !isCovered edits k := by
  rw [items]
  induction List.range (size + 1) with
  | nil => rfl
  | cons k ks ih =>
      rw [List.flatMap_cons, List.filterMap_append, ih, filterMap_offset?_itemsAt,
        List.filter_cons]
      cases isCovered edits k <;> rfl

/-! ## Stretches of the description -/

section Before

variable {edits : List Edit} {k : Nat} (h : ∀ e ∈ edits, k < e.span.start)
include h

theorem insertionsAt_before : insertionsAt edits k = [] := by
  rw [insertionsAt, List.filter_eq_nil_iff]
  intro e he
  have := h e he
  simp only [Bool.and_eq_true, beq_iff_eq]
  omega

theorem replacementAt?_before : replacementAt? edits k = none := by
  rw [replacementAt?, List.find?_eq_none]
  intro e he
  have := h e he
  simp only [Bool.and_eq_true, beq_iff_eq, decide_eq_true_eq]
  omega

theorem isCovered_before : isCovered edits k = false := by
  rw [isCovered, List.any_eq_false]
  intro e he
  have := h e he
  simp only [Bool.and_eq_true, decide_eq_true_eq]
  omega

/-- In front of all edits only bytes stand. -/
theorem itemsAt_before : itemsAt edits k = [.kept k] := by
  simp [itemsAt, insertionsAt_before h, replacementAt?_before h, isCovered_before h]

end Before

/-- An edit says nothing about offsets that it neither starts at nor covers. -/
theorem itemsAt_cons_of_apart {e : Edit} {edits : List Edit} {k : Nat}
    (hstart : e.span.start ≠ k) (hcov : ¬ (e.span.start ≤ k ∧ k < e.span.stop)) :
    itemsAt (e :: edits) k = itemsAt edits k := by
  have hcov' : (decide (e.span.start ≤ k) && decide (k < e.span.stop)) = false := by
    rw [Bool.eq_false_iff]
    simpa using hcov
  simp [itemsAt, insertionsAt, replacementAt?, isCovered, hstart, hcov']

theorem itemsAt_cons_insertion {e : Edit} {edits : List Edit}
    (hempty : e.span.start = e.span.stop) :
    itemsAt (e :: edits) e.span.start = .edited e :: itemsAt edits e.span.start := by
  simp [itemsAt, insertionsAt, replacementAt?, isCovered, hempty]

/-- Where a replacement starts, and everything else starts past its end. -/
theorem itemsAt_cons_replacement {e : Edit} {edits : List Edit}
    (hne : e.span.start < e.span.stop) (hpast : ∀ x ∈ edits, e.span.stop ≤ x.span.start) :
    itemsAt (e :: edits) e.span.start = [.edited e] := by
  have hins := insertionsAt_before fun x hx => Nat.lt_of_lt_of_le hne (hpast x hx)
  rw [insertionsAt] at hins
  have hself : ¬ e.span.stop = e.span.start := by omega
  simp [itemsAt, insertionsAt, replacementAt?, isCovered, hins, hne, hself]

/-- Inside a replaced range, where nothing else starts, nothing stands. -/
theorem itemsAt_cons_inside {e : Edit} {edits : List Edit} {k : Nat} (hlo : e.span.start < k)
    (hhi : k < e.span.stop) (hpast : ∀ x ∈ edits, e.span.stop ≤ x.span.start) :
    itemsAt (e :: edits) k = [] := by
  have hlater : ∀ x ∈ edits, k < x.span.start := fun x hx => Nat.lt_of_lt_of_le hhi (hpast x hx)
  have hins := insertionsAt_before hlater
  have hrep := replacementAt?_before hlater
  rw [insertionsAt] at hins
  rw [replacementAt?] at hrep
  have hstart : ¬ e.span.start = k := by omega
  simp [itemsAt, insertionsAt, replacementAt?, isCovered, hins, hrep, hstart, hhi,
    Nat.le_of_lt hlo]

theorem itemsAt_eq_of_range' {edits : List Edit} {start n : Nat} {f : Nat → List Item}
    (h : ∀ k, start ≤ k → k < start + n → itemsAt edits k = f k) :
    (List.range' start n).flatMap (itemsAt edits) = (List.range' start n).flatMap f := by
  rw [List.flatMap_def, List.flatMap_def, List.map_congr_left]
  intro k hk
  obtain ⟨hlo, hhi⟩ := List.mem_range'_1.mp hk
  exact h k hlo hhi

/-! ## The walk -/

/-- What holds of the sorted edits that are left when the walk has come to an
offset: they are ordered, in range, start no earlier, and each starts past the
ranges replaced before it. -/
structure Ahead (size offset : Nat) (edits : List Edit) : Prop where
  ordered : ∀ e ∈ edits, e.span.start ≤ e.span.stop
  inRange : ∀ e ∈ edits, e.span.stop ≤ size
  later : ∀ e ∈ edits, offset ≤ e.span.start
  sorted : edits.Pairwise fun a b => Edits.le a b = true
  clear : edits.Pairwise Edits.Clear

/-- Past an edit, the others are ahead of its end. -/
theorem Ahead.tail {size offset : Nat} {e : Edit} {edits : List Edit}
    (h : Ahead size offset (e :: edits)) : Ahead size e.span.stop edits := by
  refine ⟨fun x hx => h.ordered x (List.mem_cons_of_mem _ hx),
    fun x hx => h.inRange x (List.mem_cons_of_mem _ hx), fun x hx => ?_, h.sorted.of_cons,
    h.clear.of_cons⟩
  have hle := Edits.le_iff.mp ((List.pairwise_cons.mp h.sorted).1 x hx)
  have hclear := (List.pairwise_cons.mp h.clear).1 x hx
  rw [Edits.Clear, Edits.isInsertion_eq_false_iff] at hclear
  omega

/-- Up to the next edit there are bytes only. -/
theorem itemsFrom_eq_kept_append {size offset start : Nat} {edits : List Edit}
    (hoff : offset ≤ start) (hsize : start ≤ size) (h : ∀ e ∈ edits, start ≤ e.span.start) :
    itemsFrom size offset edits
      = (List.range' offset (start - offset)).map Item.kept ++ itemsFrom size start edits := by
  have hsplit : List.range' offset (size + 1 - offset)
      = List.range' offset (start - offset) ++ List.range' start (size + 1 - start) := by
    have := List.range'_append_1 (s := offset) (m := start - offset) (n := size + 1 - start)
    rw [Nat.add_sub_cancel' hoff] at this
    rw [this]
    congr 1
    omega
  rw [itemsFrom, hsplit, List.flatMap_append, ← itemsFrom,
    itemsAt_eq_of_range' (f := fun k => [.kept k]), ← List.map_eq_flatMap]
  intro k hlo hhi
  exact itemsAt_before fun e he => by have := h e he; omega

/-- From the start of an edit that is next: the edit, then what stands from its
end on. -/
theorem itemsFrom_start {size offset : Nat} {e : Edit} {edits : List Edit}
    (h : Ahead size offset (e :: edits)) :
    itemsFrom size e.span.start (e :: edits) = .edited e :: itemsFrom size e.span.stop edits := by
  have hle := h.ordered e (List.mem_cons_self ..)
  have hsize := h.inRange e (List.mem_cons_self ..)
  have hpast := h.tail.later
  have hapart : ∀ k, e.span.stop ≤ k → e.span.start ≠ k →
      itemsAt (e :: edits) k = itemsAt edits k := fun k hk hne =>
    itemsAt_cons_of_apart hne fun hc => Nat.not_lt_of_le hk hc.2
  obtain ⟨n, hn⟩ : ∃ n, size + 1 - e.span.start = n + 1 := ⟨size - e.span.start, by omega⟩
  rw [itemsFrom, hn, List.range'_succ, List.flatMap_cons]
  rcases Nat.eq_or_lt_of_le hle with hempty | hlt
  · -- An insertion: the offset itself is not yet done.
    rw [itemsAt_cons_insertion hempty, itemsFrom, ← hempty, hn, List.range'_succ,
      List.flatMap_cons, List.cons_append]
    congr 2
    exact itemsAt_eq_of_range' fun k hlo _ => hapart k (by omega) (by omega)
  · -- A replacement: nothing else stands up to its end.
    have hsplit : List.range' (e.span.start + 1) n
        = List.range' (e.span.start + 1) (e.span.stop - (e.span.start + 1))
          ++ List.range' e.span.stop (size + 1 - e.span.stop) := by
      have := List.range'_append_1 (s := e.span.start + 1)
        (m := e.span.stop - (e.span.start + 1)) (n := size + 1 - e.span.stop)
      rw [Nat.add_sub_cancel' hlt] at this
      rw [this]
      congr 1
      omega
    have hinside : (List.range' (e.span.start + 1) (e.span.stop - (e.span.start + 1))).flatMap
        (itemsAt (e :: edits)) = [] := by
      rw [itemsAt_eq_of_range' (f := fun _ => []), List.flatMap_eq_nil_iff]
      · exact fun _ _ => rfl
      · exact fun k hlo hhi => itemsAt_cons_inside hlo (by omega) hpast
    rw [itemsAt_cons_replacement hlt hpast, hsplit, List.flatMap_append, hinside, itemsFrom,
      List.nil_append, List.singleton_append]
    congr 1
    exact itemsAt_eq_of_range' fun k hlo _ => hapart k hlo (by omega)

/-- The description follows the walk: bytes up to the next edit, the edit, and
the rest from its end on. -/
theorem itemsFrom_cons {size offset : Nat} {e : Edit} {edits : List Edit}
    (h : Ahead size offset (e :: edits)) :
    itemsFrom size offset (e :: edits)
      = (List.range' offset (e.span.start - offset)).map Item.kept
        ++ .edited e :: itemsFrom size e.span.stop edits := by
  have hle := h.ordered e (List.mem_cons_self ..)
  have hsize := h.inRange e (List.mem_cons_self ..)
  rw [← itemsFrom_start h]
  refine itemsFrom_eq_kept_append (h.later e (List.mem_cons_self ..)) (by omega) ?_
  intro x hx
  rcases List.mem_cons.mp hx with rfl | hx
  · exact Nat.le_refl _
  · exact Nat.le_trans hle (h.tail.later x hx)

theorem itemsFrom_nil (size offset : Nat) :
    itemsFrom size offset [] = (List.range' offset (size + 1 - offset)).map Item.kept := by
  rw [itemsFrom, itemsAt_eq_of_range' (f := fun k => [.kept k]), ← List.map_eq_flatMap]
  exact fun k _ _ => itemsAt_before (by simp)

theorem filterMap_edit?_kept (ks : List Nat) : (ks.map Item.kept).filterMap Item.edit? = [] := by
  rw [List.filterMap_map, List.filterMap_eq_nil_iff]
  exact fun _ _ => rfl

/-- The edits among the items are the sorted edits. -/
theorem filterMap_edit?_itemsFrom {size : Nat} {edits : List Edit} {offset : Nat}
    (h : Ahead size offset edits) : (itemsFrom size offset edits).filterMap Item.edit? = edits := by
  induction edits generalizing offset with
  | nil => rw [itemsFrom_nil, filterMap_edit?_kept]
  | cons e edits ih =>
      rw [itemsFrom_cons h, List.filterMap_append, filterMap_edit?_kept, List.nil_append,
        List.filterMap_cons, Item.edit?, ih h.tail]

/-- The bytes that are kept over a stretch. -/
theorem flatMap_bytes_kept (input : List UInt8) (start n : Nat) :
    ((List.range' start n).map Item.kept).flatMap (Item.bytes input)
      = (input.drop start).take n := by
  rw [List.flatMap_map, ← flatMap_range'_getElem?]
  rfl

/-- The piece that an edit becomes. -/
def Edit.piece (e : Edit) : Piece :=
  if e.isInsertion then .inserted e.text.toList else .replaced e.text.toList e.span

theorem Edit.text_piece (e : Edit) : e.piece.text = e.text.toList := by
  unfold Edit.piece
  cases e.isInsertion <;> rfl

/-- One step of the walk: the text up to the next edit, the edit, and the walk from
its end on. -/
theorem layout_cons {text rest : List Char} {e : Edit} {offset : Nat} (edits : List Edit)
    (hrest : Rest text offset rest) (hslice : e.span.IsSlice text) (hoff : offset ≤ e.span.start) :
    ∃ gap atStart atStop, rest = gap ++ atStart ∧ byteSize gap = e.span.start - offset
      ∧ Rest text e.span.stop atStop
      ∧ Edits.layout offset rest (e :: edits)
        = .kept gap offset :: e.piece :: Edits.layout e.span.stop atStop edits := by
  obtain ⟨atStart, hstart⟩ := hslice.start
  obtain ⟨atStop, hstop⟩ := hslice.stop
  obtain ⟨gap, rfl, hgap⟩ := hrest.between hstart hoff
  have htake : takeBytes? (e.span.start - offset) (gap ++ atStart) = some gap :=
    takeBytes?_eq_some_iff.mpr ⟨atStart, rfl, hgap⟩
  have hdrop : dropBytes? (e.span.start - offset + e.span.length) (gap ++ atStart)
      = some atStop := by
    obtain ⟨mid, hmid, hsize⟩ := hstart.between hstop hslice.ordered
    rw [dropBytes?_eq_some_iff]
    refine ⟨gap ++ mid, by rw [hmid, List.append_assoc], ?_⟩
    rw [byteSize_append, hgap, hsize, Span.length]
  refine ⟨gap, atStart, atStop, rfl, hgap, hstop, ?_⟩
  simp only [Edits.layout, htake, hdrop, Option.getD_some, Edit.piece]

/-- The walk writes the described items. -/
theorem utf8_layout {text rest : List Char} {edits : List Edit} {offset : Nat}
    (hrest : Rest text offset rest) (hslices : ∀ e ∈ edits, e.span.IsSlice text)
    (h : Ahead (byteSize text) offset edits) :
    utf8 ((Edits.layout offset rest edits).flatMap Piece.text)
      = (itemsFrom (byteSize text) offset edits).flatMap (Item.bytes (utf8 text)) := by
  induction edits generalizing offset rest with
  | nil =>
      rw [itemsFrom_nil, flatMap_bytes_kept, List.take_of_length_le, ← hrest.utf8_eq_drop]
      · simp [Edits.layout, Piece.text]
      · rw [List.length_drop, length_utf8]
        omega
  | cons e edits ih =>
      obtain ⟨gap, atStart, atStop, rfl, hgap, hstop, hlayout⟩ :=
        layout_cons edits hrest (hslices e (List.mem_cons_self ..))
          (h.later e (List.mem_cons_self ..))
      have hkept : utf8 gap = ((utf8 text).drop offset).take (e.span.start - offset) := by
        rw [← hrest.utf8_eq_drop, utf8_append, ← hgap, ← length_utf8, List.take_left]
      have htail := ih hstop (fun x hx => hslices x (List.mem_cons_of_mem _ hx)) h.tail
      rw [itemsFrom_cons h, List.flatMap_append, flatMap_bytes_kept, List.flatMap_cons, ← htail,
        ← hkept, hlayout]
      simp only [List.flatMap_cons, Edit.text_piece, utf8_append, Item.bytes, bytes_eq]
      rfl

/-! ## From sorted to recorded edits -/

/-- Insertions at one offset compare equal, so the sort keeps their order. -/
theorem insertionsAt_sorted (edits : Edits) (k : Nat) :
    insertionsAt edits.sorted k = insertionsAt edits.recorded k := by
  have hequal : (insertionsAt edits.recorded k).Pairwise fun a b => Edits.le a b = true := by
    refine List.pairwise_of_forall_mem_list fun a ha b hb => ?_
    simp only [insertionsAt, List.mem_filter, Bool.and_eq_true, beq_iff_eq] at ha hb
    rw [Edits.le_iff]
    omega
  have hsub : (insertionsAt edits.recorded k).Sublist edits.sorted :=
    List.sublist_mergeSort Edits.le_trans Edits.le_total hequal (List.filter_sublist ..)
  have hfilter := hsub.filter fun e => e.span.start == k && e.span.stop == k
  rw [insertionsAt, List.filter_filter] at hfilter
  simp only [Bool.and_self] at hfilter
  have hlength := (edits.sorted_perm.filter fun e => e.span.start == k && e.span.stop == k).length_eq
  exact (hfilter.eq_of_length hlength.symm).symm

/-- In either order, the replacement that starts at an offset is the same one. -/
theorem replacementAt?_perm {edits edits' : List Edit} (hperm : edits.Perm edits')
    (hdisj : edits.Pairwise fun a b => ¬ a.span.SharesByte b.span) (k : Nat) :
    replacementAt? edits k = replacementAt? edits' k := by
  have hunique : ∀ a ∈ edits, ∀ b ∈ edits, a ≠ b → ¬ a.span.SharesByte b.span := by
    have hne : edits.Pairwise fun a b => a ≠ b → ¬ a.span.SharesByte b.span := by
      refine hdisj.imp ?_
      exact fun h _ => h
    have hflip : edits.Pairwise fun a b => b ≠ a → ¬ b.span.SharesByte a.span := by
      refine hdisj.imp ?_
      exact fun h _ hs => h hs.symm
    exact fun a ha b hb =>
      hne.forall_of_forall_of_flip (fun x _ hx => absurd rfl hx) hflip ha hb
  cases hr : replacementAt? edits k with
  | none =>
      rw [replacementAt?, List.find?_eq_none] at hr
      exact (List.find?_eq_none.mpr fun e he => hr e (hperm.mem_iff.mpr he)).symm
  | some a =>
      have ha := List.mem_of_find?_eq_some hr
      have hpa := List.find?_some hr
      cases hr' : replacementAt? edits' k with
      | none =>
          rw [replacementAt?, List.find?_eq_none] at hr'
          exact absurd hpa (hr' a (hperm.mem_iff.mp ha))
      | some b =>
          have hb := hperm.mem_iff.mpr (List.mem_of_find?_eq_some hr')
          have hpb := List.find?_some hr'
          simp only [Bool.and_eq_true, beq_iff_eq, decide_eq_true_eq] at hpa hpb
          refine congrArg some (Classical.byContradiction fun hab => ?_)
          exact hunique a ha b hb hab ⟨k, ⟨by omega, by omega⟩, ⟨by omega, by omega⟩⟩

/-- The description depends on the order of the edits only through the order of
the insertions at each offset. -/
theorem items_perm {edits edits' : List Edit} (hperm : edits.Perm edits')
    (hins : ∀ k, insertionsAt edits k = insertionsAt edits' k)
    (hdisj : edits.Pairwise fun a b => ¬ a.span.SharesByte b.span) (size : Nat) :
    items size edits = items size edits' := by
  rw [items, items]
  congr 1
  funext k
  rw [itemsAt, itemsAt, hins k, replacementAt?_perm hperm hdisj k, isCovered, isCovered,
    hperm.any_eq]

/-- Applicable edits, sorted, are ahead of the start of the text. -/
theorem Applicable.ahead {text : List Char} {edits : Edits} (h : Applicable text edits.recorded) :
    Ahead (byteSize text) 0 edits.sorted := by
  have hmem : ∀ e ∈ edits.sorted, e.span.IsSlice text :=
    fun e he => h.slices e (edits.sorted_perm.mem_iff.mp he)
  have hclear := (Edits.conflict?_eq_none_iff fun e he => (hmem e he).ordered).mp
    (Edits.checks_pass_iff.mpr h).2
  exact ⟨fun e he => (hmem e he).ordered, fun e he => (hmem e he).inRange,
    fun _ _ => Nat.zero_le _, edits.sorted_pairwise, hclear.2⟩

theorem Applicable.items_sorted {text : List Char} {edits : Edits}
    (h : Applicable text edits.recorded) (size : Nat) :
    items size edits.sorted = items size edits.recorded :=
  (items_perm edits.sorted_perm.symm (fun k => (insertionsAt_sorted edits k).symm)
    h.disjoint size).symm

/-- The sorted edits, read off the description of the recorded ones. -/
theorem Applicable.sorted_eq {text : List Char} {edits : Edits}
    (h : Applicable text edits.recorded) :
    edits.sorted = (items (byteSize text) edits.recorded).filterMap Item.edit? := by
  rw [← h.items_sorted, items_eq_itemsFrom, filterMap_edit?_itemsFrom h.ahead]

theorem Applicable.perm {text : List Char} {edits edits' : List Edit}
    (h : Applicable text edits) (hperm : edits.Perm edits') : Applicable text edits' := by
  rw [applicable_iff] at h ⊢
  exact ⟨fun e he => h.1 e (hperm.mem_iff.mpr he),
    (hperm.pairwise_iff fun hn hc => hn hc.symm).mp h.2⟩

namespace Edits

/-- The bytes that applying writes are those of the described items. -/
theorem bytes_apply {source : String} {edits : Edits} {applied : Applied}
    (happly : edits.apply source = .ok applied) :
    bytes applied.text
      = (items (byteSize source.toList) edits.recorded).flatMap (Item.bytes (bytes source)) := by
  have h : Applicable source.toList edits.recorded := apply_isOk_iff.mp ⟨applied, happly⟩
  obtain ⟨hin, hc⟩ := checks_pass_iff.mpr h
  rw [apply_of_fits hin hc] at happly
  cases happly
  have hslices : ∀ e ∈ edits.sorted, e.span.IsSlice source.toList :=
    fun e he => h.slices e (edits.sorted_perm.mem_iff.mp he)
  rw [bytes_ofList, utf8_layout (Rest.zero _) hslices h.ahead, ← items_eq_itemsFrom,
    h.items_sorted, bytes_eq]

/-- Reordering edits without touching the order of the insertions at any offset
changes nothing. -/
theorem apply_perm {source : String} {edits edits' : Edits}
    (h : Applicable source.toList edits.recorded)
    (hperm : edits'.recorded.Perm edits.recorded)
    (hins : ∀ k, insertionsAt edits'.recorded k = insertionsAt edits.recorded k) :
    edits'.apply source = edits.apply source := by
  have h' := h.perm hperm.symm
  have hsorted : edits'.sorted = edits.sorted := by
    rw [h.sorted_eq, h'.sorted_eq, items_perm hperm hins h'.disjoint]
  obtain ⟨hin, hc⟩ := checks_pass_iff.mpr h
  obtain ⟨hin', hc'⟩ := checks_pass_iff.mpr h'
  rw [apply_of_fits hin hc, apply_of_fits hin' hc', hsorted]

/-- What the calls that apply make of a text, offset by offset: at each offset
the insertions there in call order, the replacement that starts there, and the
byte itself unless it is replaced. So bytes that are not replaced are kept once
and in order, every edit is written once, and only the order of insertions at
one offset matters. -/
theorem apply_eq_items (source : String) (calls : List EditCall) (applied : Applied)
    (happly : (ofCalls calls).apply source = .ok applied) :
    bytes applied.text
        = (items (bytes source).length (calls.filterMap EditCall.edit?)).flatMap
            (Item.bytes (bytes source))
      ∧ (items (bytes source).length (calls.filterMap EditCall.edit?)).filterMap Item.offset?
        = (List.range ((bytes source).length + 1)).filter
            (fun k => !isCovered (calls.filterMap EditCall.edit?) k)
      ∧ ((items (bytes source).length (calls.filterMap EditCall.edit?)).filterMap
          Item.edit?).Perm (calls.filterMap EditCall.edit?)
      ∧ ∀ calls' : List EditCall,
          (calls'.filterMap EditCall.edit?).Perm (calls.filterMap EditCall.edit?) →
          (∀ k, insertionsAt (calls'.filterMap EditCall.edit?) k
            = insertionsAt (calls.filterMap EditCall.edit?) k) →
          (ofCalls calls').apply source = .ok applied := by
  have h : Applicable source.toList (ofCalls calls).recorded := apply_isOk_iff.mp ⟨applied, happly⟩
  have hsize : (bytes source).length = byteSize source.toList := by rw [bytes_eq, length_utf8]
  rw [← recorded_ofCalls, hsize]
  refine ⟨bytes_apply happly, filterMap_offset?_items .., ?_, ?_⟩
  · rw [← h.sorted_eq]
    exact sorted_perm _
  · intro calls' hperm hins
    rw [← recorded_ofCalls] at hperm hins
    rw [apply_perm h hperm hins, happly]

theorem apply_eq_items_at_one_offset : ∃ applied,
    (ofCalls [.insert 1 "1", .insert 1 "2", .remove ⟨1, 2⟩, .insert 1 "3"]).apply "ab" = .ok applied
      ∧ bytes applied.text = bytes "a123" := by
  obtain ⟨applied, happly⟩ : ∃ applied, (ofCalls [.insert 1 "1", .insert 1 "2", .remove ⟨1, 2⟩,
      .insert 1 "3"]).apply "ab" = .ok applied := by
    rw [apply_isOk_iff, recorded_ofCalls]
    refine ⟨?_, ?_, ?_⟩
    · simp only [← Span.chars?_isSome_iff]
      decide
    · simp [EditCall.edit?, Span.SharesByte]
      omega
    · simp [EditCall.edit?, Span.Splits]
  refine ⟨applied, happly, ?_⟩
  rw [(apply_eq_items _ _ applied happly).1, bytes_eq, bytes_eq]
  decide

end Edits

end Recompose
