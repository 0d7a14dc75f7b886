import Recompose.Proofs.Collected
import Recompose.Proofs.Script.Endings
import Recompose.Proofs.Script.LineEnds

/-!
# Joined code

Collected code is joined with line ends. These keep the tokens of every content, and
they stand where a statement may end. They do not make it end: a content that begins
with a bracket, a template or an operator goes on with the statement in front of it.
-/

namespace Recompose

namespace Script

/-! ## Contents on lines of their own -/

/-- What was read up to this cursor ends there. -/
structure Rules.EndsAt (r : Rules) (c' : Cursor) : Prop where
  /-- An operand that no arrow function begins is the whole expression. -/
  operand : ∀ context c t, Gives (r.arrow? context) c none c → Gives (r.chainHead context) c t c' →
    Gives (r.assignmentExpression context) c t c'
  /-- An expression that no label stands in front of is a statement. -/
  expressionStatement : ∀ context c t, Gives labels c false c →
    Gives (r.assignment { context with allowIn := true }) c t c' →
    Gives (r.expressionStatement context) c
      (.node .exprStmt ⟨c.token.span.start, c'.prevStop⟩ [t]) c'
  /-- A declarator is the last one. A semicolon is none, also where a parser is lenient. -/
  declarators : ∀ context c t,
    (r.dialect.lenient = true → (c.token.kind == .punct ";") = false) →
    Gives (r.declarator context) c t c' → Gives (r.declarators context) c [t] c'
  statement : Gives Parser.endStatement c' () c'

theorem Rules.endsAt_of_fresh {r : Rules} (hlimit : 0 < r.limit) {c : Cursor} (h : c.Fresh) :
    r.EndsAt c where
  operand _ _ _ := assignmentExpression_of_chainHead hlimit h.ends.endsValue
  expressionStatement _ _ _ := expressionStatement_of_assignment h.ends (endStatement_of_fresh h)
  declarators _ _ _ := declarators_of_declarator hlimit h.ends
  statement := endStatement_of_fresh h

/-- How a content is read in front of a gap and more text. From any place in it, the
readers get what they get from the content alone; where it is over, the first token of
the text follows, on a new line. -/
structure ReadsApart (content gap text : List Char) : Prop where
  token : ∀ offset ahead, ahead <:+ content → Cursor.EndsLine offset ahead →
    (Cursor.start offset ahead).here ≠ [] →
    Cursor.start offset (ahead ++ gap ++ text) = (Cursor.start offset ahead).before (gap ++ text)
  regex : ∀ inClass skip pos ahead stop after, ahead <:+ content →
    readRegex? inClass skip pos ahead = some (stop, after) →
    readRegex? inClass skip pos (ahead ++ gap ++ text) = some (stop, after ++ gap ++ text)
  template : ∀ skip pos ahead ended stop after, ahead <:+ content →
    readTemplateText? skip pos ahead = some (ended, stop, after) →
    readTemplateText? skip pos (ahead ++ gap ++ text) = some (ended, stop, after ++ gap ++ text)
  boundary : ∀ offset ahead, ahead <:+ content → Cursor.EndsLine offset ahead →
    (Cursor.start offset ahead).here = [] →
    Cursor.start offset (ahead ++ gap ++ text)
      = (Cursor.start (offset + byteSize (ahead ++ gap)) text).onNewLine offset
  /-- What the content ends with is whole, unless that token goes on with it. -/
  whole : ∀ offset ahead, ahead <:+ content → Cursor.EndsLine offset ahead →
    (Cursor.start offset ahead).here = [] →
    (Cursor.start (offset + byteSize (ahead ++ gap)) text).token.kind.goesOn = false →
    ∀ r : Rules, 0 < r.limit → r.EndsAt (Cursor.start offset (ahead ++ gap ++ text))

/-- What stands between two contents: a line end, or an empty line. -/
def IsGap (gap : List Char) : Prop := gap = ['\n'] ∨ gap = ['\n', '\n']

theorem IsGap.start_append {gap : List Char} (h : IsGap gap) {offset : Nat} {ahead : List Char}
    (hends : Cursor.EndsLine offset ahead) (hhere : (Cursor.start offset ahead).here = [])
    (text : List Char) :
    Cursor.start offset (ahead ++ gap ++ text)
      = (Cursor.start (offset + byteSize (ahead ++ gap)) text).onNewLine offset := by
  rw [byteSize_append]
  rcases h with rfl | rfl
  · rw [List.append_assoc, List.singleton_append, Cursor.start_append_of_nil hends hhere]
    rfl
  · rw [List.append_assoc, List.cons_append, Cursor.start_append_of_nil hends hhere,
      List.singleton_append, Cursor.start_lineEnd]
    rfl

theorem readsApart_of_isGap (content : List Char) {gap : List Char} (h : IsGap gap)
    (text : List Char) : ReadsApart content gap text := by
  obtain ⟨more, hgap⟩ : ∃ more, gap ++ text = '\n' :: more := by
    rcases h with rfl | rfl <;> exact ⟨_, rfl⟩
  refine ⟨?_, ?_, ?_, fun _ _ _ hends hhere => h.start_append hends hhere text, ?_⟩
  · intro offset ahead _ hends hhere
    rw [List.append_assoc, hgap]
    exact Cursor.start_append_of_here hends hhere more
  · intro inClass skip pos ahead stop after _ hread
    rw [List.append_assoc, List.append_assoc, hgap]
    exact readRegex?_append hread more
  · intro skip pos ahead ended stop after _ hread
    rw [List.append_assoc, List.append_assoc]
    exact readTemplateText?_append hread _
  · intro offset ahead _ hends hhere hgoes r hlimit
    rw [h.start_append hends hhere text]
    exact Rules.endsAt_of_fresh hlimit ⟨rfl, hgoes⟩

/-- The contents stand in a text one behind the other, and are read apart. -/
inductive KeptApart : List String → List Char → Prop where
  | nil : KeptApart [] []
  | last (content : String) : KeptApart [content] content.toList
  | cons {content next : String} {contents : List String} {gap text : List Char}
      (hgap : IsGap gap) (happart : ReadsApart content.toList gap text)
      (h : KeptApart (next :: contents) text) :
      KeptApart (content :: next :: contents) (content.toList ++ gap ++ text)

theorem KeptApart.append {contents others : List String} {text gap text' : List Char}
    (h : KeptApart contents text) (hne : contents ≠ []) (hgap : IsGap gap)
    (h' : KeptApart others text') (hne' : others ≠ []) :
    KeptApart (contents ++ others) (text ++ gap ++ text') := by
  obtain ⟨other, others, rfl⟩ := List.exists_cons_of_ne_nil hne'
  induction h with
  | nil => exact absurd rfl hne
  | last content => exact .cons hgap (readsApart_of_isGap _ hgap _) h'
  | @cons first next contents gap' text hgap' _ _ ih =>
      have hrest : KeptApart (next :: (contents ++ other :: others)) (text ++ gap ++ text') :=
        ih (List.cons_ne_nil _ _)
      have hall := hrest.cons hgap' (readsApart_of_isGap first.toList hgap' _)
      simpa only [List.append_assoc, List.cons_append] using hall

theorem keptApart_lines (lines : List String) :
    KeptApart lines ("\n".intercalate lines).toList := by
  induction lines with
  | nil => exact .nil
  | cons line lines ih =>
      cases lines with
      | nil => exact .last line
      | cons next lines =>
          rw [String.intercalate_cons_cons, String.toList_append, String.toList_append]
          exact .cons (.inl rfl) (readsApart_of_isGap _ (.inl rfl) _) ih

end Script

/-! ## Sections -/

theorem lines_ne_nil_of_mem_addToSections {sections : List Section} {priority : Priority}
    {plugin : Nat} {content : String} (h : ∀ s ∈ sections, s.lines ≠ []) :
    ∀ s ∈ addToSections sections priority plugin content, s.lines ≠ [] := by
  induction sections with
  | nil => simp [addToSections]
  | cons t sections ih =>
      rw [List.forall_mem_cons] at h
      unfold addToSections
      split
      · exact List.forall_mem_cons.mpr ⟨by simp, h.2⟩
      split
      · exact List.forall_mem_cons.mpr ⟨List.cons_ne_nil _ _, List.forall_mem_cons.mpr h⟩
      · exact List.forall_mem_cons.mpr ⟨h.1, ih h.2⟩

namespace Collected

/-- All code, in the order in which it is printed. -/
def contents (c : Collected) : List String := c.sections.flatMap (·.lines)

theorem keptApart_localCode {c : Collected} (h : ∀ s ∈ c.sections, s.lines ≠ []) :
    Script.KeptApart c.contents c.localCode.toList := by
  obtain ⟨sections, _, _⟩ := c
  unfold contents localCode
  dsimp only at h ⊢
  induction sections with
  | nil => exact .nil
  | cons s sections ih =>
      rw [List.forall_mem_cons] at h
      cases sections with
      | nil => simpa using Script.keptApart_lines s.lines
      | cons t sections =>
          rw [List.flatMap_cons, List.map_cons, List.map_cons, String.intercalate_cons_cons,
            String.toList_append, String.toList_append]
          refine (Script.keptApart_lines s.lines).append h.1 (.inr rfl) (ih h.2) ?_
          rw [List.flatMap_cons]
          exact List.append_ne_nil_of_left_ne_nil (h.2 t (List.mem_cons_self ..)) _

variable [Script.Reader]

theorem lines_ne_nil_of_mem_collect {c : Collected} (h : ∀ s ∈ c.sections, s.lines ≠ [])
    (plugin : Nat) (fragment : Fragment) :
    ∀ s ∈ (c.collect plugin fragment).1.sections, s.lines ≠ [] := by
  cases fragment with
  | code content priority => exact lines_ne_nil_of_mem_addToSections h
  | hoist content priority =>
      unfold collect addHoisted
      dsimp only
      split
      · exact h
      · exact h
      · exact lines_ne_nil_of_mem_addToSections h
  | property _ _ _ | replacement _ => exact h

theorem lines_ne_nil_of_mem_ofFragments (fragments : List (Nat × Fragment)) :
    ∀ s ∈ (ofFragments fragments).sections, s.lines ≠ [] := by
  induction fragments using List.reverseRecOn with
  | nil => exact nofun
  | append_singleton fragments f ih =>
      unfold ofFragments at ih ⊢
      rw [List.foldl_append]
      exact lines_ne_nil_of_mem_collect ih f.1 f.2

theorem inOrder_ofFragments (fragments : List (Nat × Fragment)) :
    InOrder (ofFragments fragments).sections := by
  induction fragments using List.reverseRecOn with
  | nil => exact .nil
  | append_singleton fragments f ih =>
      unfold ofFragments at ih ⊢
      rw [List.foldl_append]
      exact inOrder_collect ih f.1 f.2

/-- The lines of a band and plugin come in the order of the fragments. -/
theorem lines_ofFragments (fragments : List (Nat × Fragment)) (priority : Priority) (plugin : Nat) :
    (ofFragments fragments).lines priority plugin
      = fragments.flatMap fun f => if f.1 = plugin then (f.2.line? priority).toList else [] := by
  induction fragments using List.reverseRecOn with
  | nil => rfl
  | append_singleton fragments f ih =>
      have horder := inOrder_ofFragments fragments
      unfold ofFragments at ih horder ⊢
      rw [List.foldl_append, List.foldl_cons, List.foldl_nil, lines_collect horder, ih,
        List.flatMap_append, List.flatMap_singleton]

/-- Code of fragments is joined in the order of bands, plugins and fragments, and in the
joined code each content is read apart from the next one. -/
theorem localCode_keepsApart (fragments : List (Nat × Fragment)) :
    InOrder (ofFragments fragments).sections ∧
      (∀ priority plugin, (ofFragments fragments).lines priority plugin
        = fragments.flatMap fun f => if f.1 = plugin then (f.2.line? priority).toList else []) ∧
      Script.KeptApart (ofFragments fragments).contents
        (ofFragments fragments).localCode.toList :=
  ⟨inOrder_ofFragments fragments, lines_ofFragments fragments,
    keptApart_localCode (lines_ne_nil_of_mem_ofFragments fragments)⟩

end Collected

/-- A bracket goes on with the constant in front of it: two statements are joined to one. -/
theorem localCode_joinsStatements :
    let first := "const p = props"
    let second := "[1, 2].forEach(log)"
    let fragments := [(0, .code first .state), (0, .code second .state)]
    let code := (Collected.ofFragments fragments).localCode
    code = first ++ "\n" ++ second ∧
      [first, second, code].map (fun text =>
          (Script.read {} text).toOption.map fun script => script.items.length)
        = [some 1, some 1, some 1] := by
  decide +kernel

end Recompose
