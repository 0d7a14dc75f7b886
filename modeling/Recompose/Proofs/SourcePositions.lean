import Recompose.Proofs.EditLayout

/-!
# Where edited text comes from

A source map is asked for one offset of the edited text. It looks the stretch up
by bisection, and the stretches are those of the pieces that are not empty and
not inserted. Here the answer is read off the pieces themselves, walked through
from the first one (`inputPosition?_ofPieces`). For applied edits it is then read
off the description of the result offset by offset, in which no piece, no sort
and no stretch occurs (`inputPosition?_apply`).
-/

namespace Recompose

/-! ## Looking a stretch up -/

namespace SourceMap

/-- Stretches in the order of the edited text, none of them empty. -/
structure Ascending (stretches : List Stretch) : Prop where
  apart : stretches.Pairwise fun a b => a.generated.stop ≤ b.generated.start
  nonempty : ∀ s ∈ stretches, s.generated.start < s.generated.stop

/-- What bisection keeps: the first candidate starts at or in front of the offset
unless it is the first stretch of all, and what stands behind the candidates
starts behind the offset. -/
structure Bisected (stretches : List Stretch) (offset lo hi : Nat) : Prop where
  before : lo = 0 ∨ ∃ s, stretches[lo]? = some s ∧ s.generated.start ≤ offset
  behind : ∀ i s, hi ≤ i → stretches[i]? = some s → offset < s.generated.start

/-- An offset lies in a stretch. -/
def Within (offset : Nat) (s : Stretch) : Prop :=
  s.generated.start ≤ offset ∧ offset < s.generated.stop

variable {stretches : List Stretch} {offset lo hi : Nat}

theorem Ascending.stop_le_start (h : Ascending stretches) {i j : Nat} {a b : Stretch}
    (ha : stretches[i]? = some a) (hb : stretches[j]? = some b) (hij : i < j) :
    a.generated.stop ≤ b.generated.start := by
  obtain ⟨hi, rfl⟩ := List.getElem?_eq_some_iff.mp ha
  obtain ⟨hj, rfl⟩ := List.getElem?_eq_some_iff.mp hb
  exact List.pairwise_iff_getElem.mp h.apart i j hi hj hij

/-- The candidates up to one that starts behind the offset. -/
theorem Bisected.left (h : Bisected stretches offset lo hi) (hasc : Ascending stretches)
    {mid : Nat} {s : Stretch} (hs : stretches[mid]? = some s) (hlt : offset < s.generated.start) :
    Bisected stretches offset lo mid := by
  refine ⟨h.before, fun i t hi ht => ?_⟩
  rcases Nat.eq_or_lt_of_le hi with rfl | hi
  · rw [hs] at ht
    exact Option.some.inj ht ▸ hlt
  · have hle := hasc.stop_le_start hs ht hi
    have hne := hasc.nonempty s (List.mem_of_getElem? hs)
    omega

/-- Bisection leaves one candidate. -/
theorem bisected_bisect (hasc : Ascending stretches) (hlt : lo < hi)
    (hhi : hi ≤ stretches.length) (h : Bisected stretches offset lo hi) :
    Bisected stretches offset (bisect stretches offset lo hi)
      (bisect stretches offset lo hi + 1) := by
  fun_induction bisect stretches offset lo hi with
  | case1 lo hi hmore mid hany ih =>
      obtain ⟨s, hs, hle⟩ := (Option.any_eq_true ..).mp hany
      exact ih (by omega) hhi ⟨.inr ⟨s, hs, of_decide_eq_true hle⟩, h.behind⟩
  | case2 lo hi hmore mid hany ih =>
      have hmid : mid < stretches.length := by omega
      have hs : stretches[mid]? = some stretches[mid] := List.getElem?_eq_getElem hmid
      have hbehind : offset < stretches[mid].generated.start := by simpa [hs] using hany
      exact ih (by omega) (by omega) (h.left hasc hs hbehind)
  | case3 lo hi hdone =>
      obtain rfl : hi = lo + 1 := by omega
      exact h

/-- The stretch that is looked up is the one in which the offset lies. -/
theorem stretchAt?_eq_some_iff {m : SourceMap} (hasc : Ascending m.stretches) {s : Stretch} :
    m.stretchAt? offset = some s ↔ s ∈ m.stretches ∧ Within offset s := by
  unfold stretchAt? Within
  rw [Option.filter_eq_some_iff, Bool.and_eq_true, decide_eq_true_eq, decide_eq_true_eq]
  constructor
  · rintro ⟨hget, hwithin⟩
    exact ⟨List.mem_of_getElem? hget, hwithin⟩
  · rintro ⟨hmem, hwithin⟩
    refine ⟨?_, hwithin⟩
    obtain ⟨i, hget⟩ := List.mem_iff_getElem?.mp hmem
    obtain ⟨hi, -⟩ := List.getElem?_eq_some_iff.mp hget
    have hall : Bisected m.stretches offset 0 m.stretches.length := by
      refine ⟨.inl rfl, fun j t hj ht => ?_⟩
      rw [List.getElem?_eq_none hj] at ht
      cases ht
    obtain ⟨hbefore, hbehind⟩ := bisected_bisect hasc (by omega) (Nat.le_refl _) hall
    generalize bisect m.stretches offset 0 m.stretches.length = found at hbefore hbehind ⊢
    -- A stretch in front of this one ends in front of the offset, one behind it starts behind.
    have hle : i ≤ found := Nat.le_of_not_lt fun hlt => by
      have := hbehind i s hlt hget
      omega
    rcases Nat.eq_or_lt_of_le hle with rfl | hlt
    · exact hget
    · rcases hbefore with hzero | ⟨t, ht, hstart⟩
      · omega
      · have := hasc.stop_le_start hget ht hlt
        omega

/-- The input offset that a stretch gives for an offset in it. -/
def origin (s : Stretch) (offset : Nat) : Nat :=
  if s.generated.length = s.source.length then s.source.start + (offset - s.generated.start)
  else s.source.start

theorem inputPosition?_eq_some_iff {m : SourceMap} (hasc : Ascending m.stretches) {q : Nat} :
    m.inputPosition? offset = some q
      ↔ ∃ s ∈ m.stretches, Within offset s ∧ origin s offset = q := by
  simp only [inputPosition?, Option.map_eq_some_iff, stretchAt?_eq_some_iff hasc, and_assoc]
  rfl

end SourceMap

/-! ## Parts of a text -/

section Locate

variable {α : Type} (size : α → Nat)

/-- The part in which a position lies, and the position in that part, if parts of
these sizes follow each other. -/
def locate? : List α → Nat → Option (α × Nat)
  | [], _ => none
  | a :: as, p => if p < size a then some (a, p) else locate? as (p - size a)

/-- The size of parts that follow each other. -/
def totalSize : List α → Nat
  | [] => 0
  | a :: as => size a + totalSize as

/-- A part stands at a position: the position lies in it, behind all parts in
front of it. -/
def StandsAt (as : List α) (p : Nat) (a : α) (d : Nat) : Prop :=
  ∃ before after, as = before ++ a :: after ∧ d < size a ∧ p = totalSize size before + d

variable {size} {as bs : List α} {p d : Nat} {a : α}

theorem totalSize_append (as bs : List α) :
    totalSize size (as ++ bs) = totalSize size as + totalSize size bs := by
  induction as with
  | nil => simp [totalSize]
  | cons a as ih => rw [List.cons_append, totalSize, ih, totalSize, Nat.add_assoc]

theorem locate?_append_right (h : totalSize size as ≤ p) :
    locate? size (as ++ bs) p = locate? size bs (p - totalSize size as) := by
  induction as generalizing p with
  | nil => simp [totalSize]
  | cons a as ih =>
      simp only [totalSize] at h
      rw [List.cons_append, locate?, if_neg (by omega), ih (by omega)]
      congr 1
      simp only [totalSize]
      omega

theorem locate?_of_standsAt (h : StandsAt size as p a d) : locate? size as p = some (a, d) := by
  obtain ⟨before, after, rfl, hd, rfl⟩ := h
  rw [locate?_append_right (Nat.le_add_right ..), Nat.add_sub_cancel_left, locate?, if_pos hd]

theorem standsAt_of_locate? (h : locate? size as p = some (a, d)) : StandsAt size as p a d := by
  induction as generalizing p with
  | nil => cases h
  | cons b as ih =>
      rw [locate?] at h
      split at h
      · rename_i hlt
        obtain ⟨rfl, rfl⟩ := Prod.mk.inj (Option.some.inj h)
        exact ⟨[], as, rfl, hlt, by simp [totalSize]⟩
      · rename_i hge
        obtain ⟨before, after, rfl, hd, hp⟩ := ih h
        refine ⟨b :: before, after, rfl, hd, ?_⟩
        simp only [totalSize] at hp ⊢
        omega

theorem locate?_eq_none_iff : locate? size as p = none ↔ totalSize size as ≤ p := by
  induction as generalizing p with
  | nil => simp [locate?, totalSize]
  | cons a as ih =>
      rw [locate?]
      simp only [totalSize] at ih ⊢
      split
      · simp only [reduceCtorEq, false_iff]
        omega
      · rw [ih]
        omega

variable (size) in
/-- The input offset behind a position, given by the part that stands there. -/
def sourceIn? (source? : α → Nat → Option Nat) (as : List α) (p : Nat) : Option Nat :=
  (locate? size as p).bind fun found => source? found.1 found.2

theorem sourceIn?_cons (source? : α → Nat → Option Nat) (a : α) (as : List α) (p : Nat) :
    sourceIn? size source? (a :: as) p
      = if p < size a then source? a p else sourceIn? size source? as (p - size a) := by
  rw [sourceIn?, locate?]
  split <;> rfl

theorem sourceIn?_of_standsAt (source? : α → Nat → Option Nat) (h : StandsAt size as p a d) :
    sourceIn? size source? as p = source? a d := by
  rw [sourceIn?, locate?_of_standsAt h, Option.bind_some]

end Locate

/-! ## Pieces -/

namespace Piece

def size (p : Piece) : Nat := byteSize p.text

/-- The input offset behind an offset in a piece. -/
def source? : Piece → Nat → Option Nat
  | .kept _ start, d => some (start + d)
  | .inserted _, _ => none
  | .replaced text span, d =>
    some (if byteSize text = span.length then span.start + d else span.start)

/-- The stretch of a piece that is written at an offset. -/
def stretch? (offset : Nat) (p : Piece) : Option Stretch :=
  if p.text.isEmpty then none
  else match p with
    | .kept t start => some ⟨⟨offset, offset + byteSize t⟩, ⟨start, start + byteSize t⟩⟩
    | .inserted _ => none
    | .replaced t span => some ⟨⟨offset, offset + byteSize t⟩, span⟩

theorem generated_of_stretch? {offset : Nat} {p : Piece} {s : Stretch}
    (h : p.stretch? offset = some s) :
    s.generated.start = offset ∧ s.generated.stop = offset + p.size ∧ 0 < p.size := by
  unfold stretch? at h
  split at h
  · cases h
  rename_i htext
  have hpos : 0 < p.size := by
    rw [Nat.pos_iff_ne_zero, size, Ne, byteSize_eq_zero]
    simpa using htext
  cases p with
  | kept _ _ | replaced _ _ =>
      obtain rfl := Option.some.inj h
      exact ⟨rfl, rfl, hpos⟩
  | inserted _ => cases h

/-- A piece gives the offsets that its stretch gives, and none without one. -/
theorem source?_eq_some_iff {offset d q : Nat} {p : Piece} (hd : d < p.size) :
    p.source? d = some q
      ↔ ∃ s, p.stretch? offset = some s ∧ SourceMap.origin s (offset + d) = q := by
  have htext : p.text.isEmpty = false := by
    rw [List.isEmpty_eq_false_iff, Ne, ← byteSize_eq_zero, ← size]
    omega
  cases p with
  | kept t start => simp [stretch?, htext, source?, SourceMap.origin, Span.length]
  | inserted t => simp [stretch?, source?]
  | replaced t span =>
      simp only [stretch?, htext, source?, SourceMap.origin, Span.length, Bool.false_eq_true,
        if_false, Option.some.injEq, exists_eq_left', Nat.add_sub_cancel_left]
      rfl

end Piece

namespace SourceMap

theorem stretchesFrom_cons (offset : Nat) (p : Piece) (ps : List Piece) :
    stretchesFrom offset (p :: ps)
      = (p.stretch? offset).toList ++ stretchesFrom (offset + p.size) ps := by
  cases p <;> simp only [stretchesFrom, Piece.stretch?, Piece.size] <;> split <;> rfl

theorem ascending_stretchesFrom (offset : Nat) (pieces : List Piece) :
    Ascending (stretchesFrom offset pieces) ∧
      ∀ s ∈ stretchesFrom offset pieces, offset ≤ s.generated.start := by
  induction pieces generalizing offset with
  | nil => exact ⟨⟨.nil, nofun⟩, nofun⟩
  | cons p ps ih =>
      obtain ⟨⟨hapart, hne⟩, hstart⟩ := ih (offset + p.size)
      have hlater : ∀ s ∈ stretchesFrom (offset + p.size) ps, offset ≤ s.generated.start :=
        fun s hs => Nat.le_trans (Nat.le_add_right ..) (hstart s hs)
      rw [stretchesFrom_cons]
      cases hs : p.stretch? offset with
      | none => exact ⟨⟨hapart, hne⟩, hlater⟩
      | some s =>
          obtain ⟨hfirst, hlast, hpos⟩ := Piece.generated_of_stretch? hs
          simp only [Option.toList_some, List.singleton_append]
          refine ⟨⟨List.pairwise_cons.mpr ⟨hlast ▸ hstart, hapart⟩, ?_⟩, ?_⟩
          · rw [List.forall_mem_cons]
            exact ⟨by omega, hne⟩
          · rw [List.forall_mem_cons]
            exact ⟨by omega, hlater⟩

/-- The stretches of pieces give an input offset exactly where the piece at that
position does, and the same one. -/
theorem exists_stretchesFrom_iff (offset : Nat) (pieces : List Piece) (p q : Nat) :
    (∃ s ∈ stretchesFrom offset pieces, Within (offset + p) s ∧ origin s (offset + p) = q)
      ↔ sourceIn? Piece.size Piece.source? pieces p = some q := by
  induction pieces generalizing offset p with
  | nil => simp [stretchesFrom, sourceIn?, locate?]
  | cons piece ps ih =>
      rw [stretchesFrom_cons, sourceIn?_cons]
      split
      · -- The position is in this piece, in front of all other stretches.
        rename_i hlt
        rw [Piece.source?_eq_some_iff hlt]
        constructor
        · rintro ⟨s, hs, hwithin, horigin⟩
          rcases List.mem_append.mp hs with hs | hs
          · exact ⟨s, Option.mem_toList.mp hs, horigin⟩
          · have := (ascending_stretchesFrom (offset + piece.size) ps).2 s hs
            have := hwithin.1
            omega
        · rintro ⟨s, hs, horigin⟩
          obtain ⟨hfirst, hlast, -⟩ := Piece.generated_of_stretch? hs
          refine ⟨s, List.mem_append_left _ (Option.mem_toList.mpr hs), ?_, horigin⟩
          exact ⟨by omega, by omega⟩
      · -- The position is behind this piece and its stretch.
        rename_i hge
        have hoffset : offset + piece.size + (p - piece.size) = offset + p := by omega
        rw [← ih (offset + piece.size) (p - piece.size), hoffset]
        constructor
        · rintro ⟨s, hs, hwithin, horigin⟩
          rcases List.mem_append.mp hs with hs | hs
          · obtain ⟨-, hlast, -⟩ := Piece.generated_of_stretch? (Option.mem_toList.mp hs)
            have := hwithin.2
            omega
          · exact ⟨s, hs, hwithin, horigin⟩
        · rintro ⟨s, hs, hfound⟩
          exact ⟨s, List.mem_append_right _ hs, hfound⟩

/-- The input offset of a position is that of the piece which stands there. -/
theorem inputPosition?_ofPieces (pieces : List Piece) (p : Nat) :
    (ofPieces pieces).inputPosition? p = sourceIn? Piece.size Piece.source? pieces p := by
  have hasc : Ascending (ofPieces pieces).stretches := (ascending_stretchesFrom 0 pieces).1
  ext q
  rw [inputPosition?_eq_some_iff hasc, ← exists_stretchesFrom_iff 0, Nat.zero_add]
  rfl

end SourceMap

/-! ## Items -/

namespace Item

def size (input : List UInt8) (item : Item) : Nat := (item.bytes input).length

/-- The input offset behind an offset in an item. -/
def source? : Item → Nat → Option Nat
  | kept offset, d => some (offset + d)
  | edited e, d =>
    if e.isInsertion then none
    else some (if (Recompose.bytes e.text).length = e.span.length then e.span.start + d
      else e.span.start)

end Item

section

variable {input : List UInt8} {its : List Item} {start n p : Nat}

theorem size_kept (h : start < input.length) : (Item.kept start).size input = 1 := by
  simp [Item.size, Item.bytes, h]

/-- Bytes that are kept in a row come from as many offsets in a row. -/
theorem sourceIn?_kept_append (h : start + n ≤ input.length) :
    sourceIn? (Item.size input) Item.source? ((List.range' start n).map Item.kept ++ its) p
      = if p < n then some (start + p)
        else sourceIn? (Item.size input) Item.source? its (p - n) := by
  induction n generalizing start p with
  | zero => simp
  | succ n ih =>
      rw [List.range'_succ, List.map_cons, List.cons_append, sourceIn?_cons, size_kept (by omega),
        ih (by omega)]
      rcases p with _ | p
      · simp [Item.source?]
      · simp [Nat.add_assoc, Nat.add_comm 1]

/-- Behind the last edit, the bytes up to the end of the input are kept. -/
theorem sourceIn?_itemsFrom_nil (h : start ≤ input.length) :
    sourceIn? (Item.size input) Item.source? (itemsFrom input.length start []) p
      = if p < input.length - start then some (start + p) else none := by
  have hsplit : List.range' start (input.length + 1 - start)
      = List.range' start (input.length - start) ++ [input.length] := by
    rw [show input.length + 1 - start = input.length - start + 1 by omega, List.range'_concat]
    congr 2
    omega
  -- The item at the end of the input has no byte.
  have hend : (Item.kept input.length).size input = 0 := by simp [Item.size, Item.bytes]
  rw [itemsFrom_nil, hsplit, List.map_append, sourceIn?_kept_append (by omega), List.map_singleton,
    sourceIn?_cons, hend]
  rfl

variable (input) in
theorem piece_of_edit (e : Edit) :
    e.piece.size = (Item.edited e).size input ∧ e.piece.source? = (Item.edited e).source? := by
  have hsize : (bytes e.text).length = byteSize e.text.toList := by rw [bytes_eq, length_utf8]
  refine ⟨by rw [Piece.size, Edit.text_piece, Item.size, Item.bytes, hsize], ?_⟩
  funext d
  cases h : e.isInsertion <;> simp [Edit.piece, Piece.source?, Item.source?, h, hsize]

end

/-- The walk that lays edits out gives each position the offset that the
description gives it. -/
theorem sourceIn?_layout {text rest : List Char} {edits : List Edit} {offset : Nat}
    (hrest : Rest text offset rest) (hslices : ∀ e ∈ edits, e.span.IsSlice text)
    (h : Ahead (byteSize text) offset edits) (p : Nat) :
    sourceIn? Piece.size Piece.source? (Edits.layout offset rest edits) p
      = sourceIn? (Item.size (utf8 text)) Item.source?
          (itemsFrom (byteSize text) offset edits) p := by
  induction edits generalizing offset rest p with
  | nil =>
      have hsize : byteSize rest = byteSize text - offset := by
        rw [← length_utf8, hrest.utf8_eq_drop, List.length_drop, length_utf8]
      rw [← length_utf8, sourceIn?_itemsFrom_nil (by rw [length_utf8]; exact hrest.le_size),
        Edits.layout, sourceIn?_cons, length_utf8, ← hsize]
      rfl
  | cons e edits ih =>
      have hmem : e ∈ e :: edits := List.mem_cons_self ..
      obtain ⟨gap, atStart, atStop, rfl, hgap, hstop, hlayout⟩ :=
        layout_cons edits hrest (hslices e hmem) (h.later e hmem)
      have hkept : (Piece.kept gap offset).size = e.span.start - offset := hgap
      have hin : offset + (e.span.start - offset) ≤ (utf8 text).length := by
        have := h.later e hmem
        have := h.ordered e hmem
        have := h.inRange e hmem
        rw [length_utf8]
        omega
      obtain ⟨hsize, hsource⟩ := piece_of_edit (utf8 text) e
      rw [hlayout, itemsFrom_cons h, sourceIn?_kept_append hin, sourceIn?_cons, sourceIn?_cons,
        sourceIn?_cons, hkept, hsize, hsource,
        ih hstop (fun x hx => hslices x (List.mem_cons_of_mem _ hx)) h.tail]
      rfl

/-! ## Positions of the description -/

section

variable {input : List UInt8} {its : List Item} {p d k : Nat} {item : Item}

theorem totalSize_items (input : List UInt8) (its : List Item) :
    totalSize (Item.size input) its = (its.flatMap (Item.bytes input)).length := by
  induction its with
  | nil => rfl
  | cons item its ih => rw [totalSize, ih, List.flatMap_cons, List.length_append, Item.size]

/-- The byte at a position is one of the item that stands there. -/
theorem StandsAt.getElem? (h : StandsAt (Item.size input) its p item d) :
    (its.flatMap (Item.bytes input))[p]? = (item.bytes input)[d]? := by
  obtain ⟨before, after, rfl, hd, rfl⟩ := h
  rw [List.flatMap_append, List.flatMap_cons, totalSize_items,
    List.getElem?_append_right (Nat.le_add_right ..), Nat.add_sub_cancel_left,
    List.getElem?_append_left hd]

theorem StandsAt.mem (h : StandsAt (Item.size input) its p item d) : item ∈ its := by
  obtain ⟨before, after, rfl, -⟩ := h
  exact List.mem_append_right _ (List.mem_cons_self ..)

/-- A byte that is kept is one byte of the input. -/
theorem StandsAt.of_kept (h : StandsAt (Item.size input) its p (.kept k) d) :
    k < input.length ∧ d = 0 := by
  obtain ⟨-, -, -, hd, -⟩ := h
  rcases Nat.lt_or_ge k input.length with hk | hk
  · rw [size_kept hk] at hd
    exact ⟨hk, Nat.lt_one_iff.mp hd⟩
  · simp [Item.size, Item.bytes, hk] at hd

/-- Kept bytes stand in the order of the input. -/
theorem StandsAt.kept_lt {p' k' d' : Nat} (hsorted : (its.filterMap Item.offset?).Pairwise (· < ·))
    (h : StandsAt (Item.size input) its p (.kept k) d)
    (h' : StandsAt (Item.size input) its p' (.kept k') d') (hlt : p < p') : k < k' := by
  obtain ⟨-, rfl⟩ := h.of_kept
  obtain ⟨-, rfl⟩ := h'.of_kept
  obtain ⟨before, after, rfl, hd, rfl⟩ := h
  obtain ⟨before', after', heq, -, rfl⟩ := h'
  rcases List.append_eq_append_iff.mp heq with ⟨mid, rfl, hmid⟩ | ⟨mid, rfl, hmid⟩
  · cases mid with
    | nil => simp at hlt
    | cons i mid =>
        obtain ⟨rfl, rfl⟩ := List.cons.inj hmid
        simp only [List.filterMap_append, List.filterMap_cons, Item.offset?] at hsorted
        have hafter := (List.pairwise_append.mp hsorted).2.1
        exact (List.pairwise_cons.mp hafter).1 k' (by simp [Item.offset?])
  · rw [totalSize_append] at hlt
    omega

end

/-- What stands at a position of the text that edits make of the source, and the
position in it. -/
def ItemAt (source : String) (edits : List Edit) (p : Nat) (item : Item) (d : Nat) : Prop :=
  StandsAt (Item.size (bytes source)) (items (byteSize source.toList) edits) p item d

/-- The bytes under a span of the result are kept ones, from an offset of the source
on. -/
def KeptFrom (source : String) (edits : List Edit) (span : Span) (k : Nat) : Prop :=
  ∀ d < span.length, ItemAt source edits (span.start + d) (.kept (k + d)) 0

namespace Edits

section

variable {source : String} {edits : Edits} {applied : Applied}

/-- The source map of applied edits gives each position the offset that the
description gives it. -/
theorem inputPosition?_apply (happly : edits.apply source = .ok applied) (p : Nat) :
    applied.sourceMap.inputPosition? p
      = sourceIn? (Item.size (bytes source)) Item.source?
          (items (byteSize source.toList) edits.recorded) p := by
  have h : Applicable source.toList edits.recorded := apply_isOk_iff.mp ⟨applied, happly⟩
  obtain ⟨hin, hc⟩ := checks_pass_iff.mpr h
  rw [apply_of_fits hin hc] at happly
  obtain rfl := Except.ok.inj happly
  have hslices : ∀ e ∈ edits.sorted, e.span.IsSlice source.toList :=
    fun e he => h.slices e (edits.sorted_perm.mem_iff.mp he)
  rw [SourceMap.inputPosition?_ofPieces, sourceIn?_layout (Rest.zero _) hslices h.ahead,
    ← items_eq_itemsFrom, h.items_sorted, bytes_eq]

/-- An edit that stands somewhere was recorded. -/
theorem mem_recorded_of_standsAt (happly : edits.apply source = .ok applied) {p d : Nat} {e : Edit}
    (h : ItemAt source edits.recorded p (.edited e) d) : e ∈ edits.recorded := by
  have happ : Applicable source.toList edits.recorded := apply_isOk_iff.mp ⟨applied, happly⟩
  rw [← edits.sorted_perm.mem_iff, happ.sorted_eq]
  exact List.mem_filterMap.mpr ⟨_, h.mem, rfl⟩

/-- Where the positions of the result come from. -/
theorem inputPosition?_of_standsAt (happly : edits.apply source = .ok applied) {p d : Nat}
    {item : Item} (h : ItemAt source edits.recorded p item d) :
    applied.sourceMap.inputPosition? p = item.source? d := by
  rw [inputPosition?_apply happly, sourceIn?_of_standsAt _ h]

theorem exists_standsAt (happly : edits.apply source = .ok applied) {p : Nat}
    (hp : p < (bytes applied.text).length) :
    ∃ item d, ItemAt source edits.recorded p item d := by
  rw [bytes_apply happly, ← totalSize_items] at hp
  cases hfound : locate? (Item.size (bytes source))
      (items (byteSize source.toList) edits.recorded) p with
  | none =>
      rw [locate?_eq_none_iff] at hfound
      omega
  | some found => exact ⟨_, _, standsAt_of_locate? hfound⟩

theorem inputPosition?_of_le (happly : edits.apply source = .ok applied) {p : Nat}
    (hp : (bytes applied.text).length ≤ p) : applied.sourceMap.inputPosition? p = none := by
  rw [bytes_apply happly, ← totalSize_items] at hp
  rw [inputPosition?_apply happly, sourceIn?, locate?_eq_none_iff.mpr hp, Option.bind_none]

/-- Inserted text has no place in the input. -/
theorem source?_inserted {e : Edit} (h : e.isInsertion = true) (d : Nat) :
    (Item.edited e).source? d = none := by
  simp [Item.source?, h]

/-- The place of text that replaces a range lies in that range. -/
theorem source?_replaced (happly : edits.apply source = .ok applied) {p d : Nat} {e : Edit}
    (hins : e.isInsertion = false)
    (h : ItemAt source edits.recorded p (.edited e) d) :
    ∃ q, (Item.edited e).source? d = some q ∧ e.span.start ≤ q ∧ q < e.span.stop
      ∧ e.span.stop ≤ byteSize source.toList := by
  have happ : Applicable source.toList edits.recorded := apply_isOk_iff.mp ⟨applied, happly⟩
  have hslice := happ.slices e (mem_recorded_of_standsAt happly h)
  have hordered := hslice.ordered
  have hinRange := hslice.inRange
  have hne : e.span.start ≠ e.span.stop := by simpa [Edit.isInsertion, Span.isEmpty] using hins
  obtain ⟨-, -, -, hd, -⟩ := h
  have hd : d < (bytes e.text).length := hd
  rw [Item.source?, hins]
  simp only [Bool.false_eq_true, if_false, Option.some.injEq, exists_eq_left']
  split
  · rename_i hsize
    rw [hsize, Span.length] at hd
    omega
  · omega

theorem lt_of_inputPosition? (happly : edits.apply source = .ok applied) {p q : Nat}
    (h : applied.sourceMap.inputPosition? p = some q) : q < byteSize source.toList := by
  rcases Nat.lt_or_ge p (bytes applied.text).length with hp | hp
  · obtain ⟨item, d, hitem⟩ := exists_standsAt happly hp
    rw [inputPosition?_of_standsAt happly hitem] at h
    cases item with
    | kept k =>
        obtain ⟨hk, rfl⟩ := hitem.of_kept
        obtain rfl : k = q := Option.some.inj h
        rwa [bytes_eq, length_utf8] at hk
    | edited e =>
        cases hins : e.isInsertion with
        | true =>
            rw [source?_inserted hins] at h
            cases h
        | false =>
            obtain ⟨q', hq', -, hstop, hsize⟩ := source?_replaced happly hins hitem
            rw [hq'] at h
            obtain rfl := Option.some.inj h
            omega
  · rw [inputPosition?_of_le happly hp] at h
    cases h

theorem inputPosition?_eq_none_iff (happly : edits.apply source = .ok applied) (p : Nat) :
    applied.sourceMap.inputPosition? p = none
      ↔ (bytes applied.text).length ≤ p ∨ ∃ e d, e.isInsertion = true ∧
        ItemAt source edits.recorded p (.edited e) d := by
  constructor
  · intro hnone
    rcases Nat.lt_or_ge p (bytes applied.text).length with hp | hp
    · obtain ⟨item, d, hitem⟩ := exists_standsAt happly hp
      rw [inputPosition?_of_standsAt happly hitem] at hnone
      cases item with
      | kept k => cases hnone
      | edited e =>
          cases hins : e.isInsertion with
          | true => exact .inr ⟨e, d, hins, hitem⟩
          | false =>
              obtain ⟨q, hq, -⟩ := source?_replaced happly hins hitem
              rw [hq] at hnone
              cases hnone
    · exact .inl hp
  · rintro (hp | ⟨e, d, hins, hitem⟩)
    · exact inputPosition?_of_le happly hp
    · rw [inputPosition?_of_standsAt happly hitem, source?_inserted hins]

theorem getElem?_of_kept (happly : edits.apply source = .ok applied) {p d k : Nat}
    (h : ItemAt source edits.recorded p (.kept k) d) :
    (bytes applied.text)[p]? = (bytes source)[k]? := by
  obtain ⟨hk, rfl⟩ := h.of_kept
  rw [bytes_apply happly, h.getElem?, Item.bytes, List.getElem?_eq_getElem hk]
  rfl

theorem not_covered_of_kept {p d k : Nat}
    (h : ItemAt source edits.recorded p (.kept k) d) : isCovered edits.recorded k = false := by
  have hmem : k ∈ (items (byteSize source.toList) edits.recorded).filterMap Item.offset? :=
    List.mem_filterMap.mpr ⟨_, h.mem, rfl⟩
  rw [filterMap_offset?_items, List.mem_filter] at hmem
  simpa using hmem.2

theorem inputSpan?_eq_some {m : SourceMap} {span : Span} {start last : Nat}
    (hspan : span.start < span.stop) (hstart : m.inputPosition? span.start = some start)
    (hlast : m.inputPosition? (span.stop - 1) = some last) :
    m.inputSpan? span = some ⟨start, max (last + 1) start⟩ := by
  have hne : span.isEmpty = false := by
    rw [Span.isEmpty, beq_eq_false_iff_ne]
    omega
  simp [SourceMap.inputSpan?, hstart, hlast, hne]

end

/-- What a source map says about the text that edits make of the source. -/
structure SoundPositions (source : String) (edits : List Edit) (applied : Applied) : Prop where
  /-- Inserted text and what is past the end has no place in the source, and all
  else has one. -/
  unmapped : ∀ p, applied.sourceMap.inputPosition? p = none ↔
    (bytes applied.text).length ≤ p ∨
      ∃ e d, e.isInsertion = true ∧ ItemAt source edits p (.edited e) d
  /-- A kept byte comes from the same byte, which no edit replaces. -/
  kept : ∀ p k d, ItemAt source edits p (.kept k) d →
    applied.sourceMap.inputPosition? p = some k ∧ k < (bytes source).length ∧
      (bytes applied.text)[p]? = (bytes source)[k]? ∧
      ∀ e ∈ edits, ¬ (e.span.start ≤ k ∧ k < e.span.stop)
  /-- Kept bytes come in the order of the source. -/
  increasing : ∀ p p' k k' d d', ItemAt source edits p (.kept k) d →
    ItemAt source edits p' (.kept k') d' → p < p' → k < k'
  /-- Text that replaces a range comes from inside that range. -/
  replaced : ∀ p e d, e.isInsertion = false → ItemAt source edits p (.edited e) d →
    ∃ q, applied.sourceMap.inputPosition? p = some q ∧ e.span.start ≤ q ∧ q < e.span.stop
  /-- There is no other text. -/
  everywhere : ∀ p < (bytes applied.text).length, ∃ item d, ItemAt source edits p item d
  /-- A span comes from a range of the source if its two ends come from there. -/
  span : ∀ s : Span, s.start < s.stop → (applied.sourceMap.inputPosition? s.start).isSome →
    (applied.sourceMap.inputPosition? (s.stop - 1)).isSome →
      ∃ range : Span, applied.sourceMap.inputSpan? s = some range ∧ range.start ≤ range.stop ∧
        range.stop ≤ (bytes source).length
  /-- A span of kept bytes comes from the span of the same bytes. -/
  keptSpan : ∀ (s : Span) (k : Nat), s.start < s.stop → KeptFrom source edits s k →
    applied.sourceMap.inputSpan? s = some ⟨k, k + s.length⟩ ∧
      ((bytes source).drop k).take s.length = ((bytes applied.text).drop s.start).take s.length

/-- The source map of applied edits is sound. -/
theorem apply_soundPositions (source : String) (calls : List EditCall) (applied : Applied)
    (happly : (ofCalls calls).apply source = .ok applied) :
    SoundPositions source (calls.filterMap EditCall.edit?) applied := by
  rw [← recorded_ofCalls]
  have hsize : (bytes source).length = byteSize source.toList := by rw [bytes_eq, length_utf8]
  constructor
  case unmapped => exact inputPosition?_eq_none_iff happly
  case kept =>
    intro p k d h
    refine ⟨?_, h.of_kept.1, getElem?_of_kept happly h, ?_⟩
    · obtain ⟨-, rfl⟩ := h.of_kept
      exact inputPosition?_of_standsAt happly h
    · have hcovered := not_covered_of_kept h
      rw [isCovered, List.any_eq_false] at hcovered
      simpa using hcovered
  case increasing =>
    intro p p' k k' d d' h h' hlt
    refine h.kept_lt ?_ h' hlt
    rw [filterMap_offset?_items]
    exact List.pairwise_lt_range.filter _
  case replaced =>
    intro p e d hins h
    obtain ⟨q, hq, hstart, hstop, -⟩ := source?_replaced happly hins h
    exact ⟨q, by rw [inputPosition?_of_standsAt happly h, hq], hstart, hstop⟩
  case everywhere => exact fun p hp => exists_standsAt happly hp
  case span =>
    intro s hs hstart hlast
    obtain ⟨start, hstart⟩ := Option.isSome_iff_exists.mp hstart
    obtain ⟨last, hlast⟩ := Option.isSome_iff_exists.mp hlast
    have hstart_lt := lt_of_inputPosition? happly hstart
    have hlast_lt := lt_of_inputPosition? happly hlast
    refine ⟨_, inputSpan?_eq_some hs hstart hlast, Nat.le_max_right .., ?_⟩
    rw [hsize]
    exact Nat.max_le.mpr ⟨hlast_lt, Nat.le_of_lt hstart_lt⟩
  case keptSpan =>
    intro s k hs hkept
    have hlength : s.length = s.stop - s.start := rfl
    have hposition : ∀ d < s.length,
        applied.sourceMap.inputPosition? (s.start + d) = some (k + d) := fun d hd =>
      inputPosition?_of_standsAt happly (hkept d hd)
    have hstart := hposition 0 (by omega)
    have hlast := hposition (s.length - 1) (by omega)
    rw [show s.start + (s.length - 1) = s.stop - 1 by omega] at hlast
    constructor
    · rw [inputSpan?_eq_some hs hstart hlast]
      congr 2
      omega
    · refine List.ext_getElem? fun i => ?_
      rw [List.getElem?_take, List.getElem?_take, List.getElem?_drop, List.getElem?_drop]
      split
      · rename_i hi
        exact (getElem?_of_kept happly (hkept i hi)).symm
      · rfl

theorem apply_soundPositions_replaced : ∃ applied,
    (ofCalls [.insert 0 "\n", .overwrite ⟨4, 10⟩ "x.value"]).apply "a = this.x" = .ok applied
      ∧ SoundPositions "a = this.x" [⟨⟨0, 0⟩, "\n"⟩, ⟨⟨4, 10⟩, "x.value"⟩] applied := by
  obtain ⟨applied, happly⟩ : ∃ applied,
      (ofCalls [.insert 0 "\n", .overwrite ⟨4, 10⟩ "x.value"]).apply "a = this.x"
        = .ok applied := by
    rw [apply_isOk_iff, recorded_ofCalls]
    refine ⟨?_, ?_, ?_⟩
    · simp only [← Span.chars?_isSome_iff]
      decide
    · simp [EditCall.edit?, Span.SharesByte]
    · simp [EditCall.edit?, Span.Splits]
  exact ⟨applied, happly, apply_soundPositions _ _ _ happly⟩

end Edits

end Recompose
