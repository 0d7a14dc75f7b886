import Recompose.Proofs.Script.Markup
import Recompose.Proofs.Script.Modules
import Recompose.Script.Basic

/-!
# Scripts are nested

The knot of rules is sound at every depth, hence so is the tree of a script.
-/

namespace Recompose.Script

theorem sound_rules (text : List Char) (dialect : Dialect) (limit depth : Nat) :
    (rules dialect limit depth).Sound text := by
  induction depth with
  | zero => exact Rules.sound_refusing dialect limit
  | succ depth ih =>
      exact
        { assignment := ih.assignmentExpression
          operand := ih.prefixed
          constructed := ih.callee
          element := ih.markupElement
          pattern := ih.bindingPattern
          binding := fun ctx => Rules.Sound.binding_bindingPattern _ ctx
          statement := ih.nestedStatement
          typeExpr := ih.anyType }

theorem skipHashbang_suffix (cs : List Char) : skipHashbang cs <:+ cs := by
  unfold skipHashbang
  split
  · rename_i rest
    exact (List.dropWhile_suffix _).trans ⟨['#', '!'], rfl⟩
  · exact List.suffix_refl cs

theorem rest_skipHashbang (cs : List Char) :
    Rest cs (byteSize cs - byteSize (skipHashbang cs)) (skipHashbang cs) := by
  obtain ⟨line, hline⟩ := skipHashbang_suffix cs
  refine ⟨line, hline.symm, ?_⟩
  have hsize := congrArg byteSize hline
  rw [byteSize_append] at hsize
  omega

/-- A script with the nested tree of its text. -/
structure Sound (script : Script) : Prop where
  nested : script.tree.Nested script.source.toList
  isProgram : script.tree.kind = .program

section

variable {dialect : Dialect} {source : String} {tree : Tree} {script : Script}

theorem leads_moduleItems (dialect : Dialect) (source : String) (limit depth : Nat) :
    let start := Cursor.start (byteSize source.toList - byteSize (skipHashbang source.toList))
      (skipHashbang source.toList)
    Leads (Failure.Within source.toList start) (· = start) (rules dialect limit depth).moduleItems
      (fun items => Passage source.toList false start items) :=
  (sound_rules source.toList dialect limit depth).moduleItems _ (.start (rest_skipHashbang _))

theorem nested_of_parseAs (h : parseAs dialect source = .ok tree) :
    tree.Nested source.toList ∧ tree.kind = .program := by
  unfold parseAs at h
  dsimp only at h
  split at h
  · rename_i hrun
    cases h
    have hpass := (leads_moduleItems dialect source _ _).ok rfl hrun
    refine ⟨(hpass.row.mono (Nat.zero_le _) hpass.sound.prev.le_size).node ?_ rfl, rfl⟩
    exact .of_boundaries (Nat.zero_le _) (.zero _) ⟨[], .size _⟩
  · cases h

theorem isSlice_of_parseAs {e : Failure} (h : parseAs dialect source = .error e) :
    e.span.IsSlice source.toList := by
  unfold parseAs at h
  dsimp only at h
  split at h
  · cases h
  · rename_i hrun
    cases h
    exact ((leads_moduleItems dialect source _ _).error rfl hrun).slice

/-- A script without a fault needs no leniency. -/
theorem read_of_parseAs (h : parseAs dialect source = .ok tree) :
    read dialect source = .ok ⟨source, dialect, tree⟩ := by
  unfold read parseTree
  rw [h]

/-- A reader answers with what its last parse ends with. -/
theorem read_cases (dialect : Dialect) (source : String) :
    (∃ last tree, parseAs last source = .ok tree ∧
      read dialect source = .ok ⟨source, dialect, tree⟩) ∨
    ∃ last e, parseAs last source = .error e ∧
      read dialect source = .error ⟨"unexpected token", e.span⟩ := by
  cases hstrict : parseAs dialect source with
  | ok tree => exact .inl ⟨dialect, tree, hstrict, read_of_parseAs hstrict⟩
  | error _ =>
      cases hlenient : parseAs { dialect with lenient := true } source with
      | ok tree => exact .inl ⟨_, tree, hlenient, by rw [read, parseTree, hstrict, hlenient]; rfl⟩
      | error e => exact .inr ⟨_, e, hlenient, by rw [read, parseTree, hstrict, hlenient]; rfl⟩

theorem parseAs_of_read (h : read dialect source = .ok script) :
    script.source = source ∧ ∃ dialect, parseAs dialect source = .ok script.tree := by
  obtain ⟨last, tree, htree, hread⟩ | ⟨_, _, -, hread⟩ := read_cases dialect source
  · cases hread.symm.trans h
    exact ⟨rfl, last, htree⟩
  · cases hread.symm.trans h

theorem sound_of_read (h : read dialect source = .ok script) : script.Sound := by
  obtain ⟨rfl, _, htree⟩ := parseAs_of_read h
  obtain ⟨hnested, hprogram⟩ := nested_of_parseAs htree
  exact ⟨hnested, hprogram⟩

/-- The place of a fault is in the text. -/
theorem isSlice_of_read {fault : Fault Span} (h : read dialect source = .error fault) :
    fault.place.IsSlice source.toList := by
  obtain ⟨_, _, -, hread⟩ | ⟨_, e, hfailure, hread⟩ := read_cases dialect source
  · cases hread.symm.trans h
  · cases hread.symm.trans h
    exact isSlice_of_parseAs hfailure

end

/-- What is relied on of a reader: a script holds the text that was read, and the nested
tree of that. -/
structure Reader.IsSound [Reader] : Prop where
  source : ∀ {dialect source script}, Reader.read dialect source = .ok script →
    script.source = source
  sound : ∀ {dialect source script}, Reader.read dialect source = .ok script → script.Sound

theorem Reader.isSound_read : Reader.IsSound where
  source h := (parseAs_of_read h).1
  sound := sound_of_read

end Recompose.Script
