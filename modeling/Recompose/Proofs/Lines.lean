import Recompose.Text.Layout

/-!
# Lines

Splitting a text into its lines and joining lines undo each other: lines are whatever has no
line feed in it (`joinLines_splitLines`, `splitLines_joinLines`). Shifting a text puts no
line feeds into it, so it changes the lines behind the first one each for itself
(`splitLines_dedentChars`, `splitLines_indentChars`).
-/

namespace Recompose

variable {lines : List (List Char)}

/-! ## Splitting and joining -/

theorem splitLines_ne_nil (cs : List Char) : splitLines cs ≠ [] := by
  cases cs with
  | nil => exact List.cons_ne_nil _ _
  | cons c cs =>
      rw [splitLines]
      split
      · exact List.cons_ne_nil _ _
      · split <;> exact List.cons_ne_nil _ _

theorem splitLines_cons_of_ne {c : Char} (hc : c ≠ '\n') (cs : List Char) :
    ∃ line lines, splitLines cs = line :: lines ∧ splitLines (c :: cs) = (c :: line) :: lines := by
  obtain ⟨line, lines, hlines⟩ := List.exists_cons_of_ne_nil (splitLines_ne_nil cs)
  exact ⟨line, lines, hlines, by rw [splitLines, if_neg hc, hlines]⟩

theorem not_mem_of_mem_splitLines {cs line : List Char} (h : line ∈ splitLines cs) :
    '\n' ∉ line := by
  induction cs generalizing line with
  | nil =>
      rw [List.mem_singleton.mp h]
      exact List.not_mem_nil
  | cons c cs ih =>
      by_cases hc : c = '\n'
      · rw [splitLines, if_pos hc] at h
        rcases List.mem_cons.mp h with rfl | h
        · exact List.not_mem_nil
        · exact ih h
      · obtain ⟨first, lines, hsplit, hcons⟩ := splitLines_cons_of_ne hc cs
        rw [hcons] at h
        rw [hsplit] at ih
        rcases List.mem_cons.mp h with rfl | h
        · rw [List.mem_cons, not_or]
          exact ⟨Ne.symm hc, ih (List.mem_cons_self ..)⟩
        · exact ih (List.mem_cons_of_mem _ h)

/-- Lines behind the first one, each with the line feed in front of it. -/
def laterLines (lines : List (List Char)) : List Char := lines.flatMap ('\n' :: ·)

theorem joinLines_cons (line : List Char) (lines : List (List Char)) :
    joinLines (line :: lines) = line ++ laterLines lines := by
  induction lines generalizing line with
  | nil => exact (List.append_nil line).symm
  | cons next lines ih =>
      rw [joinLines, ih]
      · rfl
      · exact List.cons_ne_nil _ _

theorem joinLines_splitLines (cs : List Char) : joinLines (splitLines cs) = cs := by
  induction cs with
  | nil => rfl
  | cons c cs ih =>
      by_cases hc : c = '\n'
      · obtain ⟨line, lines, hlines⟩ := List.exists_cons_of_ne_nil (splitLines_ne_nil cs)
        rw [hlines, joinLines_cons] at ih
        rw [splitLines, if_pos hc, hlines, joinLines_cons, hc, ← ih]
        rfl
      · obtain ⟨line, lines, hsplit, hcons⟩ := splitLines_cons_of_ne hc cs
        rw [hsplit, joinLines_cons] at ih
        rw [hcons, joinLines_cons, List.cons_append, ih]

theorem splitLines_append_lineEnd {line : List Char} (hline : '\n' ∉ line) (cs : List Char) :
    splitLines (line ++ '\n' :: cs) = line :: splitLines cs := by
  induction line with
  | nil => rw [List.nil_append, splitLines, if_pos rfl]
  | cons c line ih =>
      rw [List.mem_cons, not_or] at hline
      rw [List.cons_append, splitLines, if_neg (Ne.symm hline.1), ih hline.2]

theorem splitLines_of_not_mem {line : List Char} (hline : '\n' ∉ line) :
    splitLines line = [line] := by
  induction line with
  | nil => rfl
  | cons c line ih =>
      rw [List.mem_cons, not_or] at hline
      rw [splitLines, if_neg (Ne.symm hline.1), ih hline.2]

theorem splitLines_joinLines {line : List Char} {lines : List (List Char)}
    (h : ∀ l ∈ line :: lines, '\n' ∉ l) : splitLines (joinLines (line :: lines)) = line :: lines := by
  obtain ⟨hline, hlines⟩ := List.forall_mem_cons.mp h
  rw [joinLines_cons]
  clear h
  induction lines generalizing line with
  | nil => rw [laterLines, List.flatMap_nil, List.append_nil, splitLines_of_not_mem hline]
  | cons next lines ih =>
      obtain ⟨hnext, hrest⟩ := List.forall_mem_cons.mp hlines
      rw [laterLines, List.flatMap_cons, List.cons_append, splitLines_append_lineEnd hline,
        ← laterLines, ih hnext hrest]

theorem splitLines_injective : Function.Injective splitLines :=
  Function.LeftInverse.injective joinLines_splitLines

/-- A text of which the later lines are changed falls apart into the lines as they are then,
if that puts no line end into them. -/
theorem splitLines_joinLines_map {code first : List Char} {change : List Char → List Char}
    (h : splitLines code = first :: lines)
    (hchange : ∀ line, '\n' ∈ change line → '\n' ∈ line) :
    splitLines (joinLines (first :: lines.map change)) = first :: lines.map change := by
  have hlines : ∀ line ∈ first :: lines, '\n' ∉ line := fun line hline =>
    not_mem_of_mem_splitLines (h ▸ hline)
  obtain ⟨hfirst, hlater⟩ := List.forall_mem_cons.mp hlines
  refine splitLines_joinLines (List.forall_mem_cons.mpr ⟨hfirst, List.forall_mem_map.mpr ?_⟩)
  exact fun line hline => mt (hchange line) (hlater line hline)

/-! ## Shifting -/

def spaces (n : Nat) : List Char := List.replicate n ' '

theorem spaces_succ_append (n : Nat) (cs : List Char) :
    spaces (n + 1) ++ cs = ' ' :: (spaces n ++ cs) := rfl

theorem spaces_append_drop {n : Nat} {line : List Char} (h : n ≤ leadingSpaces line) :
    spaces n ++ line.drop n = line := by
  induction n generalizing line with
  | zero => rfl
  | succ n ih =>
      cases line with
      | nil => cases h
      | cons c line =>
          rw [leadingSpaces, List.takeWhile_cons] at h
          split at h
          · rename_i hc
            rw [spaces_succ_append, List.drop_succ_cons, ih (Nat.le_of_succ_le_succ h),
              of_decide_eq_true hc]
          · cases h

theorem splitLines_dedentChars {code first : List Char} (h : splitLines code = first :: lines) :
    splitLines (dedentChars code) = first :: lines.map (dedentLine (commonIndent lines)) := by
  rw [dedentChars, h]
  refine splitLines_joinLines_map h fun line hmem => ?_
  rw [dedentLine] at hmem
  split at hmem
  · exact List.mem_of_mem_drop hmem
  · exact hmem

theorem splitLines_indentChars {code first : List Char} (h : splitLines code = first :: lines)
    (n : Nat) : splitLines (indentChars n code) = first :: lines.map (indentLine n) := by
  rw [indentChars, h]
  refine splitLines_joinLines_map h fun line hmem => ?_
  rw [indentLine] at hmem
  split at hmem
  · exact hmem
  · exact (List.mem_append.mp hmem).resolve_left fun hspace =>
      absurd (List.eq_of_mem_replicate hspace) (by decide)

end Recompose
