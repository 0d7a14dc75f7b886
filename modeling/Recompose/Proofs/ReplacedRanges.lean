import Recompose.Proofs.SourcePositions

/-!
# What pieces of edited text map to

Every offset of the edited text lies in one piece, or behind them all, and the piece
alone decides what the offset maps to (`inputPosition?_of_standsAt`). Kept text maps
offset for offset, and nothing else does but a replacement that has the size of its
range. A replacement maps to the start of its range as a whole exactly if the sizes
differ (`inputPosition?_mapsWhole`).
-/

namespace Recompose

/-- Where replaced text maps to as a whole. -/
theorem Piece.source?_replaced_eq_start_iff (text : List Char) (span : Span) (d : Nat) :
    (Piece.replaced text span).source? d = some span.start ↔ d = 0 ∨ byteSize text ≠ span.length := by
  rw [Piece.source?, Option.some.injEq]
  split
  · rename_i hsize
    rw [or_iff_left (not_not_intro hsize)]
    omega
  · exact iff_of_true rfl (.inr ‹_›)

namespace SourceMap

variable {pieces : List Piece} {piece : Piece} {offset d : Nat}

theorem inputPosition?_of_standsAt (h : StandsAt Piece.size pieces offset piece d) :
    (ofPieces pieces).inputPosition? offset = piece.source? d := by
  rw [inputPosition?_ofPieces, sourceIn?_of_standsAt _ h]

/-- What is mapped stands in some piece. -/
theorem exists_standsAt_of_inputPosition? {q : Nat}
    (h : (ofPieces pieces).inputPosition? offset = some q) :
    ∃ piece d, StandsAt Piece.size pieces offset piece d ∧ piece.source? d = some q := by
  rw [inputPosition?_ofPieces, sourceIn?, Option.bind_eq_some_iff] at h
  obtain ⟨⟨piece, d⟩, hlocate, hsource⟩ := h
  exact ⟨piece, d, standsAt_of_locate? hlocate, hsource⟩

/-- An offset in replaced text maps to the start of the replaced range exactly if it is
the first one or the sizes differ. Every other offset that is mapped lies in kept text and
maps offset for offset, and all offsets in kept text do. -/
theorem inputPosition?_mapsWhole (pieces : List Piece) (offset : Nat) :
    let position := (ofPieces pieces).inputPosition? offset
    (∀ text span d, StandsAt Piece.size pieces offset (.replaced text span) d →
        (position = some span.start ↔ d = 0 ∨ byteSize text ≠ span.length)) ∧
      (∀ q, position = some q →
        (∀ text span d, ¬ StandsAt Piece.size pieces offset (.replaced text span) d) →
        ∃ text start d, StandsAt Piece.size pieces offset (.kept text start) d ∧ q = start + d) ∧
      (∀ text start d, StandsAt Piece.size pieces offset (.kept text start) d →
        position = some (start + d)) := by
  intro position
  refine ⟨fun text span d h => ?_, fun q hq hnot => ?_, fun text start d h => ?_⟩
  · rw [show position = _ from inputPosition?_of_standsAt h,
      Piece.source?_replaced_eq_start_iff]
  · obtain ⟨piece, d, hstands, hsource⟩ := exists_standsAt_of_inputPosition? hq
    cases piece with
    | kept text start => exact ⟨text, start, d, hstands, (Option.some.inj hsource).symm⟩
    | inserted text => cases hsource
    | replaced text span => exact absurd hstands (hnot text span d)
  · exact inputPosition?_of_standsAt h

/-- The third byte of four that replace four others maps to the third of these, and not to
the start of the range. -/
theorem inputPosition?_sameSize :
    let pieces := [Piece.replaced "abcd".toList ⟨10, 14⟩]
    StandsAt Piece.size pieces 2 (.replaced "abcd".toList ⟨10, 14⟩) 2 ∧
      (ofPieces pieces).inputPosition? 2 = some 12 :=
  ⟨⟨[], [], rfl, by decide, rfl⟩, by decide +kernel⟩

end SourceMap

end Recompose
