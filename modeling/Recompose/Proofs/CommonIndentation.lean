import Mathlib.Data.List.Forall2
import Recompose.Proofs.Lines

/-!
# The common indentation

The common indentation is the most by which all lines that count for it can be shifted
left: those that are indented and the last one (`le_commonIndent_iff`). So every indented
line is shifted by the same number of spaces and no other line changes, and an indentation
is undone where the last line stood at the margin before (`dedent_shiftsAlike`). An empty
line is not indented, so it counts only as the last one.
-/

namespace Recompose

variable {line : List Char} {lines : List (List Char)}

/-! ## Leading spaces -/

/-- A line that starts with a space. -/
def IsIndented (line : List Char) : Prop := line.head? = some ' '

instance (line : List Char) : Decidable (IsIndented line) := inferInstanceAs (Decidable (_ = _))

theorem leadingSpaces_pos_iff : 0 < leadingSpaces line ↔ IsIndented line := by
  cases line with
  | nil => simp [leadingSpaces, IsIndented]
  | cons c line => by_cases hc : c = ' ' <;> simp [leadingSpaces, IsIndented, hc]

theorem leadingSpaces_eq_zero_iff : leadingSpaces line = 0 ↔ ¬ IsIndented line := by
  rw [← leadingSpaces_pos_iff, Nat.pos_iff_ne_zero, not_not]

theorem leadingSpaces_spaces_append (n : Nat) (line : List Char) :
    leadingSpaces (spaces n ++ line) = n + leadingSpaces line := by
  have hspaces : ∀ c ∈ spaces n, decide (c = ' ') = true := fun c hc =>
    decide_eq_true (List.eq_of_mem_replicate hc)
  rw [leadingSpaces, List.takeWhile_append_of_pos hspaces, List.length_append, spaces,
    List.length_replicate]
  rfl

/-! ## The least indentation -/

/-- A line counts towards the common indentation of the lines that it is one of. -/
def Counts (lines : List (List Char)) (line : List Char) : Prop :=
  IsIndented line ∨ lines.getLast? = some line

theorem forall_counts_cons {p : List Char → Prop} (hne : lines ≠ []) :
    (∀ l ∈ line :: lines, Counts (line :: lines) l → p l)
      ↔ (IsIndented line → p line) ∧ ∀ l ∈ lines, Counts lines l → p l := by
  have hlast : (line :: lines).getLast? = lines.getLast? := by
    obtain ⟨next, rest, rfl⟩ := List.exists_cons_of_ne_nil hne
    exact List.getLast?_cons_cons
  constructor
  · refine fun h => ⟨h line (List.mem_cons_self ..) ∘ .inl, fun l hl hcounts => ?_⟩
    exact h l (List.mem_cons_of_mem _ hl) (hcounts.imp_right hlast.trans)
  · rintro ⟨hline, hlines⟩ l hl (hindented | hl')
    · rcases List.mem_cons.mp hl with rfl | hl
      · exact hline hindented
      · exact hlines l hl (.inl hindented)
    · rw [hlast] at hl'
      exact hlines l (List.mem_of_getLast? hl') (.inr hl')

/-- How far lines can be shifted left. -/
theorem le_commonIndent_iff (hne : lines ≠ []) (k : Nat) :
    k ≤ commonIndent lines ↔ ∀ line ∈ lines, Counts lines line → k ≤ leadingSpaces line := by
  induction lines with
  | nil => exact absurd rfl hne
  | cons line lines ih =>
      cases lines with
      | nil => simp [commonIndent, Counts]
      | cons next rest =>
          rw [forall_counts_cons (List.cons_ne_nil _ _), ← ih (List.cons_ne_nil _ _), commonIndent,
            ← leadingSpaces_pos_iff]
          split
          · simp [*]
          · rw [Nat.le_min, forall_prop_of_true (by omega)]
          · exact List.cons_ne_nil _ _

theorem commonIndent_le (hmem : line ∈ lines) (hcounts : Counts lines line) :
    commonIndent lines ≤ leadingSpaces line :=
  (le_commonIndent_iff (List.ne_nil_of_mem hmem) _).mp (Nat.le_refl _) line hmem hcounts

/-! ## Shifting to the left -/

/-- An indented line less `k` of the spaces that it starts with; any other line as it is. -/
def IsShiftedLeft (k : Nat) (line shifted : List Char) : Prop :=
  if IsIndented line then line = spaces k ++ shifted else shifted = line

theorem isShiftedLeft_dedentLine (hmem : line ∈ lines) :
    IsShiftedLeft (commonIndent lines) line (dedentLine (commonIndent lines) line) := by
  rw [IsShiftedLeft, dedentLine]
  split
  · have hle := commonIndent_le hmem (.inl ‹_›)
    rw [if_pos hle, spaces_append_drop hle]
  · rename_i hmargin
    rw [leadingSpaces_eq_zero_iff.mpr hmargin]
    split
    · rename_i hzero
      rw [Nat.le_zero.mp hzero, List.drop_zero]
    · rfl

/-! ## Shifting to the right -/

theorem indentLine_of_ne_nil (hne : line ≠ []) (n : Nat) :
    indentLine n line = spaces n ++ line := by
  rw [indentLine, if_neg (mt List.isEmpty_iff.mp hne)]
  rfl

theorem leadingSpaces_indentLine (hne : line ≠ []) (n : Nat) :
    leadingSpaces (indentLine n line) = n + leadingSpaces line := by
  rw [indentLine_of_ne_nil hne, leadingSpaces_spaces_append]

theorem dedentLine_indentLine (n : Nat) (line : List Char) :
    dedentLine n (indentLine n line) = line := by
  by_cases hne : line = []
  · subst hne
    rw [indentLine, if_pos List.isEmpty_nil, dedentLine, List.drop_nil, ite_self]
  · rw [dedentLine, leadingSpaces_indentLine hne, if_pos (Nat.le_add_right ..),
      indentLine_of_ne_nil hne, spaces, List.drop_left' List.length_replicate]

/-- Lines that are indented have that indentation in common if the last one has no other. -/
theorem commonIndent_map_indentLine {last : List Char} (hlast : lines.getLast? = some last)
    (hne : last ≠ []) (hmargin : ¬ IsIndented last) (n : Nat) :
    commonIndent (lines.map (indentLine n)) = n := by
  have hlast' : (lines.map (indentLine n)).getLast? = some (indentLine n last) := by
    rw [List.getLast?_map, hlast, Option.map_some]
  have hmem := List.mem_of_getLast? hlast'
  refine Nat.le_antisymm ?_ ?_
  · have hle := commonIndent_le hmem (.inr hlast')
    rwa [leadingSpaces_indentLine hne, leadingSpaces_eq_zero_iff.mpr hmargin] at hle
  · refine (le_commonIndent_iff (List.ne_nil_of_mem hmem) n).mpr fun shifted hshifted hcounts => ?_
    obtain ⟨line, -, rfl⟩ := List.mem_map.mp hshifted
    -- An empty line stays empty, and so it is neither indented nor the last one.
    have hline : line ≠ [] := by
      rintro rfl
      rcases hcounts with hindented | hlast''
      · cases hindented
      · have hempty : indentLine n last = [] := Option.some.inj (hlast'.symm.trans hlast'')
        rw [indentLine_of_ne_nil hne] at hempty
        exact hne (List.append_eq_nil_iff.mp hempty).2
    rw [leadingSpaces_indentLine hline]
    exact Nat.le_add_right ..

/-! ## Texts -/

/-- The last line of a text of more than one line is neither empty nor indented. -/
def EndsAtMargin (text : String) : Prop :=
  ∀ last ∈ (splitLines text.toList).tail.getLast?, last ≠ [] ∧ ¬ IsIndented last

theorem dedentChars_indentChars {text : String} (h : EndsAtMargin text) (n : Nat) :
    dedentChars (indentChars n text.toList) = text.toList := by
  obtain ⟨first, lines, hlines⟩ := List.exists_cons_of_ne_nil (splitLines_ne_nil text.toList)
  apply splitLines_injective
  rw [splitLines_dedentChars (splitLines_indentChars hlines n), hlines, List.cons_inj_right]
  cases hlast : lines.getLast? with
  | none => rw [List.getLast?_eq_none_iff.mp hlast, List.map_nil, List.map_nil]
  | some last =>
      rw [EndsAtMargin, hlines] at h
      obtain ⟨hne, hmargin⟩ := h last hlast
      rw [commonIndent_map_indentLine hlast hne hmargin, List.map_map]
      exact (List.map_congr_left fun line _ => dedentLine_indentLine n line).trans (List.map_id _)

/-- A text that is dedented keeps its first line and the number of its lines. The lines
behind the first one are shifted by one number of spaces where they are indented, and stay
as they are where they are not; the number is the most that all lines that count have. And
dedenting undoes an indentation of any width if the last line is at the margin. -/
theorem dedent_shiftsAlike (text : String) :
    (∃ k first lines shifted, splitLines text.toList = first :: lines ∧
      splitLines (dedent text).toList = first :: shifted ∧
      List.Forall₂ (IsShiftedLeft k) lines shifted ∧
      (lines ≠ [] →
        ∀ j, j ≤ k ↔ ∀ line ∈ lines, Counts lines line → j ≤ leadingSpaces line)) ∧
    (EndsAtMargin text → ∀ n, dedent (indent text n) = text) := by
  constructor
  · obtain ⟨first, lines, hlines⟩ := List.exists_cons_of_ne_nil (splitLines_ne_nil text.toList)
    have hdedented : splitLines (dedent text).toList
        = first :: lines.map (dedentLine (commonIndent lines)) := by
      rw [dedent, String.toList_ofList, splitLines_dedentChars hlines]
    have hshifted : List.Forall₂ (IsShiftedLeft (commonIndent lines)) lines
        (lines.map (dedentLine (commonIndent lines))) :=
      List.forall₂_map_right_iff.mpr (List.forall₂_same.mpr fun _ => isShiftedLeft_dedentLine)
    exact ⟨_, first, lines, _, hlines, hdedented, hshifted, le_commonIndent_iff⟩
  · intro hmargin n
    rw [dedent, indent, String.toList_ofList, dedentChars_indentChars hmargin, String.ofList_toList]

/-- An empty line and one of spaces only, in front of a closing brace. -/
theorem dedent_shiftsAlike_block :
    EndsAtMargin "\x7b\n  a\n\n \n\x7d" ∧
      indent "\x7b\n  a\n\n \n\x7d" 4 = "\x7b\n      a\n\n     \n    \x7d" ∧
      dedent (indent "\x7b\n  a\n\n \n\x7d" 4) = "\x7b\n  a\n\n \n\x7d" := by
  have hmargin : EndsAtMargin "\x7b\n  a\n\n \n\x7d" := by
    intro last hlast
    obtain rfl : ['\x7d'] = last := Option.some.inj hlast
    decide
  exact ⟨hmargin, by decide +kernel, (dedent_shiftsAlike _).2 hmargin 4⟩

end Recompose
