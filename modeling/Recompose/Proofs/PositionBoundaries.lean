import Recompose.Proofs.SourcePositions

/-!
# Source maps and character boundaries

A source map works on bytes. Between two characters of the edited text it stays
between two characters of the source, wherever text was kept. Text that replaces
a range maps to the first byte of the range, unless both have the same size:
there it maps byte for byte to text that is not the same, and the result may cut
a character (`isSlice_inputSpan?`).
-/

namespace Recompose

/-! ## Boundaries in a part of a text -/

theorem IsBoundary.of_append {xs ys : List Char} {n : Nat}
    (h : IsBoundary (xs ++ ys) (byteSize xs + n)) : IsBoundary ys n := by
  obtain ⟨cs, hcs⟩ := h
  obtain ⟨mid, rfl, hmid⟩ := (Rest.append ⟨[], rfl, rfl⟩).between hcs
    (by rw [byteSize_nil, Nat.zero_add]; exact Nat.le_add_right ..)
  exact ⟨cs, mid, rfl, by rw [hmid, byteSize_nil]; omega⟩

theorem IsBoundary.of_le {xs ys : List Char} {n : Nat} (h : IsBoundary (xs ++ ys) n)
    (hn : n ≤ byteSize xs) : IsBoundary xs n := by
  obtain ⟨cs, hcs⟩ := h
  have hys : Rest (xs ++ ys) (byteSize xs) ys := ⟨xs, rfl, rfl⟩
  obtain ⟨mid, rfl, hmid⟩ := hcs.between hys hn
  obtain ⟨pre, hpre, hsize⟩ := hcs
  rw [← List.append_assoc] at hpre
  exact ⟨mid, pre, List.append_cancel_right hpre, hsize⟩

theorem IsBoundary.of_rest {text xs ys : List Char} {start n : Nat}
    (hrest : Rest text start (xs ++ ys)) (h : IsBoundary xs n) : IsBoundary text (start + n) := by
  obtain ⟨cs, pre, rfl, rfl⟩ := h
  rw [List.append_assoc] at hrest
  exact ⟨_, hrest.append⟩

/-! ## Pieces -/

/-- A boundary of the written text is one of the piece in which it lies, or at
whose end. -/
theorem isBoundary_of_standsAt {pieces : List Piece} {piece : Piece} {p d i : Nat}
    (h : StandsAt Piece.size pieces p piece d) (hi : i ≤ 1)
    (hp : IsBoundary (pieces.flatMap Piece.text) (p + i)) : IsBoundary piece.text (d + i) := by
  obtain ⟨before, after, rfl, hd, rfl⟩ := h
  have hbefore : totalSize Piece.size before = byteSize (before.flatMap Piece.text) := by
    clear hp
    induction before with
    | nil => rfl
    | cons piece before ih =>
        rw [totalSize, ih, List.flatMap_cons, byteSize_append, Piece.size]
  rw [List.flatMap_append, List.flatMap_cons, hbefore, Nat.add_assoc] at hp
  exact hp.of_append.of_le (by unfold Piece.size at hd; omega)

/-- What is kept in front of, between and behind edits stands in the text. -/
theorem rest_of_mem_layout {text rest : List Char} {edits : List Edit} {offset : Nat}
    (hrest : Rest text offset rest) (hslices : ∀ e ∈ edits, e.span.IsSlice text)
    (h : Ahead (byteSize text) offset edits) {kept : List Char} {start : Nat}
    (hmem : Piece.kept kept start ∈ Edits.layout offset rest edits) :
    ∃ cs, Rest text start (kept ++ cs) := by
  induction edits generalizing offset rest with
  | nil =>
      rw [Edits.layout, List.mem_singleton, Piece.kept.injEq] at hmem
      obtain ⟨rfl, rfl⟩ := hmem
      exact ⟨[], by rwa [List.append_nil]⟩
  | cons e edits ih =>
      have he : e ∈ e :: edits := List.mem_cons_self ..
      obtain ⟨gap, atStart, atStop, rfl, -, hstop, hlayout⟩ :=
        layout_cons edits hrest (hslices e he) (h.later e he)
      rw [hlayout] at hmem
      rcases List.mem_cons.mp hmem with heq | hmem
      · obtain ⟨rfl, rfl⟩ := Piece.kept.inj heq
        exact ⟨atStart, hrest⟩
      rcases List.mem_cons.mp hmem with heq | hmem
      · unfold Edit.piece at heq
        split at heq <;> cases heq
      · exact ih hstop (fun x hx => hslices x (List.mem_cons_of_mem _ hx)) h.tail hmem

theorem exists_edit_of_mem_layout {rest : List Char} {edits : List Edit} {offset : Nat}
    {new : List Char} {span : Span}
    (hmem : Piece.replaced new span ∈ Edits.layout offset rest edits) :
    ∃ e ∈ edits, e.isInsertion = false ∧ e.text.toList = new ∧ e.span = span := by
  induction edits generalizing offset rest with
  | nil => simp [Edits.layout] at hmem
  | cons e edits ih =>
      rw [Edits.layout] at hmem
      rcases List.mem_cons.mp hmem with heq | hmem
      · cases heq
      rcases List.mem_cons.mp hmem with heq | hmem
      · split at heq
        · cases heq
        · rename_i hins
          obtain ⟨rfl, rfl⟩ := Piece.replaced.inj heq
          exact ⟨e, List.mem_cons_self .., Bool.eq_false_iff.mpr hins, rfl, rfl⟩
      · obtain ⟨e', he', hfound⟩ := ih hmem
        exact ⟨e', List.mem_cons_of_mem _ he', hfound⟩

/-! ## Applied edits -/

/-- The edit replaces a range by as many bytes as the range has. -/
def Edit.KeepsSize (e : Edit) : Prop :=
  e.isInsertion = false ∧ byteSize e.text.toList = e.span.length

/-- The offset lies in a range that an edit replaces by as many bytes. -/
def Edits.Blurs (edits : Edits) (q : Nat) : Prop :=
  ∃ e ∈ edits.recorded, e.KeepsSize ∧ e.span.start ≤ q ∧ q < e.span.stop

namespace Edits

variable {source : String} {edits : Edits} {applied : Applied}

/-- Boundaries of the result come from boundaries of the source, if they are the
start (`i = 0`) or the end (`i = 1`) of a mapped byte. -/
theorem isBoundary_inputPosition? (happly : edits.apply source = .ok applied)
    (hfirst : ∀ e ∈ edits.recorded, e.isInsertion = false →
      IsBoundary source.toList (e.span.start + 1))
    {p q i : Nat} (hi : i ≤ 1) (hp : IsBoundary applied.text.toList (p + i))
    (hq : applied.sourceMap.inputPosition? p = some q) :
    IsBoundary source.toList (q + i) ∨ edits.Blurs q := by
  have happ : Applicable source.toList edits.recorded := apply_isOk_iff.mp ⟨applied, happly⟩
  obtain ⟨hin, hc⟩ := checks_pass_iff.mpr happ
  rw [apply_of_fits hin hc] at happly
  obtain rfl := Except.ok.inj happly
  rw [String.toList_ofList] at hp
  rw [SourceMap.inputPosition?_ofPieces] at hq
  obtain ⟨⟨piece, d⟩, hlocate, hq⟩ := Option.bind_eq_some_iff.mp hq
  have hstands := standsAt_of_locate? hlocate
  have hd := isBoundary_of_standsAt hstands hi hp
  have hsorted : ∀ e ∈ edits.sorted, e ∈ edits.recorded := fun e he =>
    edits.sorted_perm.mem_iff.mp he
  have hmem : piece ∈ layout 0 source.toList edits.sorted := by
    obtain ⟨before, after, hsplit, -⟩ := hstands
    exact hsplit ▸ List.mem_append_right _ (List.mem_cons_self ..)
  obtain ⟨-, -, -, hlt, -⟩ := hstands
  cases piece with
  | kept t start =>
      obtain rfl := Option.some.inj hq
      obtain ⟨cs, hrest⟩ := rest_of_mem_layout (Rest.zero _)
        (fun e he => happ.slices e (hsorted e he)) happ.ahead hmem
      rw [Nat.add_assoc]
      exact .inl (hd.of_rest hrest)
  | inserted t => cases hq
  | replaced t span =>
      obtain ⟨e, he, hins, rfl, rfl⟩ := exists_edit_of_mem_layout hmem
      have he := hsorted e he
      have hslice := happ.slices e he
      have hne : e.span.start ≠ e.span.stop := by
        simpa [Edit.isInsertion, Span.isEmpty] using hins
      have hordered := hslice.ordered
      rw [Piece.source?] at hq
      obtain rfl := Option.some.inj hq
      split
      · rename_i hsize
        have hlength : d < e.span.length := hsize ▸ hlt
        rw [Span.length] at hlength
        exact .inr ⟨e, he, ⟨hins, hsize⟩, Nat.le_add_right .., by omega⟩
      · left
        obtain rfl | rfl : i = 0 ∨ i = 1 := by omega
        · exact hslice.start
        · exact hfirst e he hins

/-- A slice of the result comes from a slice of the source, unless one of its ends
lies in a range that was replaced by as many bytes. -/
theorem isSlice_inputSpan? (happly : edits.apply source = .ok applied)
    (hfirst : ∀ e ∈ edits.recorded, e.isInsertion = false →
      IsBoundary source.toList (e.span.start + 1))
    {span s : Span} (hspan : span.IsSlice applied.text.toList)
    (hs : applied.sourceMap.inputSpan? span = some s) :
    s.IsSlice source.toList ∨ edits.Blurs s.start ∨ edits.Blurs (s.stop - 1) := by
  obtain ⟨start, hstart, hs⟩ := Option.bind_eq_some_iff.mp hs
  have hfrom := isBoundary_inputPosition? happly hfirst (i := 0) (Nat.zero_le 1) hspan.start hstart
  split at hs
  · obtain rfl := Option.some.inj hs
    exact hfrom.imp Span.isSlice_point .inl
  · rename_i hempty
    obtain ⟨last, hlast, hs⟩ := Option.bind_eq_some_iff.mp hs
    obtain rfl := Option.some.inj hs
    have hne : span.start ≠ span.stop := by simpa [Span.isEmpty] using hempty
    have hordered := hspan.ordered
    have hstop : IsBoundary applied.text.toList (span.stop - 1 + 1) := by
      rw [Nat.sub_add_cancel (by omega)]
      exact hspan.stop
    have hto := isBoundary_inputPosition? happly hfirst (Nat.le_refl 1) hstop hlast
    rcases Nat.lt_or_ge last start with hlt | hge
    · rw [Nat.max_eq_right hlt]
      exact hfrom.imp Span.isSlice_point .inl
    · rw [Nat.max_eq_left (by omega)]
      rcases hfrom with hfrom | hblurs
      · refine hto.imp (fun hto => ?_) .inr
        exact .of_boundaries (by dsimp only; omega) hfrom hto
      · exact .inr (.inl hblurs)

end Edits

end Recompose
