import Mathlib.Data.List.Induction
import Recompose.Code.Collected

/-!
# What collecting a fragment adds

Sections are kept in the order of their bands and plugins, so each band and
plugin has one section at most. In sections of that order, `addToSections` adds
one line to the section it names and changes no other. A fragment that is
collected adds one such line, a request for an import, or requests for
declarations; other fragments add nothing.
-/

namespace Recompose

/-! ## Sections -/

theorem Priority.rank_inj {p q : Priority} (h : p.rank = q.rank) : p = q := by
  cases p <;> cases q <;> first | rfl | cases h

namespace Section

/-- A section that belongs in front of another one. -/
def Before (s t : Section) : Prop := t.follows s.priority s.plugin = true

/-- The section of a band and plugin. -/
def IsAt (s : Section) (priority : Priority) (plugin : Nat) : Prop :=
  s.priority = priority ∧ s.plugin = plugin

instance (s : Section) (priority : Priority) (plugin : Nat) :
    Decidable (s.IsAt priority plugin) :=
  inferInstanceAs (Decidable (_ ∧ _))

variable {s t : Section} {priority : Priority} {plugin : Nat}

theorem follows_iff : s.follows priority plugin = true ↔
    priority.rank < s.priority.rank ∨ priority.rank = s.priority.rank ∧ plugin < s.plugin := by
  simp [follows]

/-- A section behind a place is not the section of that place. -/
theorem not_isAt_of_follows (h : s.follows priority plugin = true) : ¬ s.IsAt priority plugin := by
  rintro ⟨rfl, rfl⟩
  rw [follows_iff] at h
  omega

theorem follows_of_before (h : s.follows priority plugin = true) (hst : s.Before t) :
    t.follows priority plugin = true := by
  unfold Before at hst
  rw [follows_iff] at h hst ⊢
  omega

/-- A section that is neither that of a place nor behind it is in front of it. -/
theorem before_of_not_follows (hat : ¬ s.IsAt priority plugin)
    (h : ¬ s.follows priority plugin = true) (ht : t.IsAt priority plugin) : s.Before t := by
  obtain ⟨rfl, rfl⟩ := ht
  have hne : s.priority.rank = t.priority.rank → s.plugin ≠ t.plugin := by
    intro hrank hplugin
    exact hat ⟨Priority.rank_inj hrank, hplugin⟩
  unfold Before
  rw [follows_iff] at h ⊢
  omega

end Section

/-- Sections in the order of their bands and plugins. -/
def InOrder (sections : List Section) : Prop := sections.Pairwise Section.Before

/-- The lines of a band and plugin. -/
def linesAt (sections : List Section) (priority : Priority) (plugin : Nat) : List String :=
  sections.flatMap fun s => if s.IsAt priority plugin then s.lines else []

theorem linesAt_cons (s : Section) (sections : List Section) (priority : Priority) (plugin : Nat) :
    linesAt (s :: sections) priority plugin
      = (if s.IsAt priority plugin then s.lines else []) ++ linesAt sections priority plugin :=
  List.flatMap_cons

section

variable {sections : List Section} {priority : Priority} {plugin : Nat} {content : String}

theorem linesAt_eq_nil (h : ∀ s ∈ sections, ¬ s.IsAt priority plugin) :
    linesAt sections priority plugin = [] :=
  List.flatMap_eq_nil_iff.mpr fun s hs => if_neg (h s hs)

/-- Where a place comes before a section, it has no lines behind it. -/
theorem InOrder.linesAt_of_follows {s : Section} (h : InOrder (s :: sections))
    (hs : s.follows priority plugin = true) : linesAt (s :: sections) priority plugin = [] := by
  apply linesAt_eq_nil
  intro t ht
  rcases List.mem_cons.mp ht with rfl | ht
  · exact Section.not_isAt_of_follows hs
  · exact Section.not_isAt_of_follows
      (Section.follows_of_before hs ((List.pairwise_cons.mp h).1 t ht))

theorem mem_addToSections {s : Section}
    (h : s ∈ addToSections sections priority plugin content) :
    s.IsAt priority plugin ∨ s ∈ sections := by
  induction sections with
  | nil =>
      rw [List.mem_singleton.mp h]
      exact .inl ⟨rfl, rfl⟩
  | cons t sections ih =>
      unfold addToSections at h
      split at h
      · rename_i hat
        rcases List.mem_cons.mp h with rfl | h
        · exact .inl hat
        · exact .inr (List.mem_cons_of_mem _ h)
      · split at h
        · rcases List.mem_cons.mp h with rfl | h
          · exact .inl ⟨rfl, rfl⟩
          · exact .inr h
        · rcases List.mem_cons.mp h with rfl | h
          · exact .inr (List.mem_cons_self ..)
          · exact (ih h).imp_right (List.mem_cons_of_mem _)

theorem InOrder.addToSections (h : InOrder sections) :
    InOrder (addToSections sections priority plugin content) := by
  induction sections with
  | nil => exact List.pairwise_singleton _ _
  | cons s sections ih =>
      have hcons := List.pairwise_cons.mp h
      unfold Recompose.addToSections
      split
      · exact List.pairwise_cons.mpr hcons
      rename_i hat
      split
      · rename_i hfollows
        refine List.pairwise_cons.mpr ⟨?_, h⟩
        intro t ht
        rcases List.mem_cons.mp ht with rfl | ht
        · exact hfollows
        · exact Section.follows_of_before hfollows (hcons.1 t ht)
      · rename_i hfollows
        refine List.pairwise_cons.mpr ⟨?_, ih hcons.2⟩
        intro t ht
        rcases mem_addToSections ht with ht | ht
        · exact Section.before_of_not_follows hat hfollows ht
        · exact hcons.1 t ht

/-- One line is added, at the end of its section. -/
theorem linesAt_addToSections (h : InOrder sections) (priority : Priority) (plugin : Nat)
    (content : String) (p : Priority) (i : Nat) :
    linesAt (addToSections sections priority plugin content) p i
      = linesAt sections p i ++ if priority = p ∧ plugin = i then [content] else [] := by
  induction sections with
  | nil =>
      by_cases hplace : priority = p ∧ plugin = i <;>
        simp [addToSections, linesAt, Section.IsAt, hplace]
  | cons s sections ih =>
      have hcons := List.pairwise_cons.mp h
      unfold addToSections
      split
      · rename_i hat
        -- Behind its section, the place has no lines: the new one is the last.
        rw [linesAt_cons, linesAt_cons]
        by_cases hplace : priority = p ∧ plugin = i
        · obtain ⟨rfl, rfl⟩ := hplace
          have hrest : linesAt sections priority plugin = [] := by
            apply linesAt_eq_nil
            intro t ht
            have hbefore := hcons.1 t ht
            unfold Section.Before at hbefore
            rw [hat.1, hat.2] at hbefore
            exact Section.not_isAt_of_follows hbefore
          simp [hrest, Section.IsAt, hat.1, hat.2]
        · have hs : ¬ s.IsAt p i := fun hs => hplace ⟨hat.1.symm.trans hs.1, hat.2.symm.trans hs.2⟩
          have hs' : ¬ Section.IsAt { s with lines := s.lines ++ [content] } p i := hs
          rw [if_neg hs, if_neg hs', if_neg hplace, List.append_nil]
      · split
        · rename_i hfollows
          rw [linesAt_cons]
          by_cases hplace : priority = p ∧ plugin = i
          · obtain ⟨rfl, rfl⟩ := hplace
            rw [h.linesAt_of_follows hfollows]
            simp [Section.IsAt]
          · simp [Section.IsAt, hplace]
        · rw [linesAt_cons, linesAt_cons, ih hcons.2, List.append_assoc]

end

/-! ## Fragments -/

namespace Fragment

/-- What a fragment asks to be written in the place of an access. -/
def replacement? : Fragment → Option String
  | replacement content => some content
  | code _ _ | hoist _ _ | property _ _ _ => none

/-- The line that a fragment adds to a band: its code, or a snippet that cannot
be merged. -/
def line? [Script.Reader] (priority : Priority) : Fragment → Option String
  | code content p => if p = priority then some content else none
  | hoist content p =>
    match Snippet.ofText content with
    | .other => if p = priority then some content else none
    | .imports _ | .declares _ => none
  | property _ _ _ | replacement _ => none

/-- The import that a fragment requests. -/
def import? [Script.Reader] : Fragment → Option ImportRequest
  | hoist content _ =>
    match Snippet.ofText content with
    | .imports request => some request
    | .declares _ | .other => none
  | code _ _ | property _ _ _ | replacement _ => none

/-- The declarations that a fragment requests. -/
def declarations [Script.Reader] : Fragment → List DeclarationRequest
  | hoist content _ =>
    match Snippet.ofText content with
    | .declares requests => requests
    | .imports _ | .other => []
  | code _ _ | property _ _ _ | replacement _ => []

end Fragment

namespace Collected

/-- The lines collected for a band from a plugin. -/
def lines (c : Collected) (priority : Priority) (plugin : Nat) : List String :=
  linesAt c.sections priority plugin

variable [Script.Reader] {c : Collected}

/-- Takes in all fragments of a plugin. -/
def collectAll (c : Collected) (plugin : Nat) (fragments : List Fragment) : Collected :=
  fragments.foldl (fun c f => (c.collect plugin f).1) c

theorem collectAll_cons (plugin : Nat) (f : Fragment) (fragments : List Fragment) :
    c.collectAll plugin (f :: fragments) = (c.collect plugin f).1.collectAll plugin fragments := rfl

theorem inOrder_collect (h : InOrder c.sections) (plugin : Nat) (fragment : Fragment) :
    InOrder (c.collect plugin fragment).1.sections := by
  cases fragment with
  | code content priority => exact h.addToSections
  | hoist content priority =>
      unfold collect addHoisted
      dsimp only
      split
      · exact h
      · exact h
      · exact h.addToSections
  | property name source exposed => exact h
  | replacement content => exact h

theorem lines_collect (h : InOrder c.sections) (plugin : Nat) (fragment : Fragment)
    (priority : Priority) (i : Nat) :
    (c.collect plugin fragment).1.lines priority i
      = c.lines priority i ++ if plugin = i then (fragment.line? priority).toList else [] := by
  have hadd : ∀ content p, (c.addCode plugin content p).lines priority i = c.lines priority i ++
      if plugin = i then (if p = priority then some content else none).toList else [] := by
    intro content p
    have hlines := linesAt_addToSections h p plugin content priority i
    unfold lines addCode
    rw [hlines]
    by_cases hp : p = priority <;> by_cases hi : plugin = i <;> simp [hp, hi]
  cases fragment with
  | code content p => exact hadd content p
  | hoist content p =>
      cases hsnippet : Snippet.ofText content with
      | imports request => simp [collect, addHoisted, Fragment.line?, hsnippet, lines]
      | declares requests => simp [collect, addHoisted, Fragment.line?, hsnippet, lines]
      | other =>
          simp only [collect, addHoisted, Fragment.line?, hsnippet]
          exact hadd content p
  | property name source exposed => simp [collect, Fragment.line?]
  | replacement content => simp [collect, Fragment.line?]

theorem imports_collect (plugin : Nat) (fragment : Fragment) :
    (c.collect plugin fragment).1.imports = c.imports ++ fragment.import?.toList := by
  cases fragment with
  | code content p => simp [collect, addCode, Fragment.import?]
  | hoist content p =>
      cases hsnippet : Snippet.ofText content <;>
        simp [collect, addHoisted, addCode, Fragment.import?, hsnippet]
  | property name source exposed => simp [collect, Fragment.import?]
  | replacement content => simp [collect, Fragment.import?]

theorem declarations_collect (plugin : Nat) (fragment : Fragment) :
    (c.collect plugin fragment).1.declarations = c.declarations ++ fragment.declarations := by
  cases fragment with
  | code content p => simp [collect, addCode, Fragment.declarations]
  | hoist content p =>
      cases hsnippet : Snippet.ofText content <;>
        simp [collect, addHoisted, addCode, Fragment.declarations, hsnippet]
  | property name source exposed => simp [collect, Fragment.declarations]
  | replacement content => simp [collect, Fragment.declarations]

theorem inOrder_collectAll (h : InOrder c.sections) (plugin : Nat) (fragments : List Fragment) :
    InOrder (c.collectAll plugin fragments).sections := by
  induction fragments generalizing c with
  | nil => exact h
  | cons f fragments ih => exact ih (inOrder_collect h plugin f)

theorem lines_collectAll (h : InOrder c.sections) (plugin : Nat) (fragments : List Fragment)
    (priority : Priority) (i : Nat) :
    (c.collectAll plugin fragments).lines priority i = c.lines priority i ++
      if plugin = i then fragments.filterMap (·.line? priority) else [] := by
  induction fragments generalizing c with
  | nil => simp [collectAll]
  | cons f fragments ih =>
      have hrest := ih (inOrder_collect h plugin f)
      rw [collectAll_cons, hrest, lines_collect h]
      by_cases hi : plugin = i
      · cases hline : f.line? priority <;> simp [hi, hline]
      · simp [hi]

theorem imports_collectAll (plugin : Nat) (fragments : List Fragment) :
    (c.collectAll plugin fragments).imports
      = c.imports ++ fragments.filterMap (·.import?) := by
  induction fragments generalizing c with
  | nil => simp [collectAll]
  | cons f fragments ih =>
      rw [collectAll_cons, ih, imports_collect]
      cases himport : f.import? <;> simp [himport]

theorem declarations_collectAll (plugin : Nat) (fragments : List Fragment) :
    (c.collectAll plugin fragments).declarations
      = c.declarations ++ fragments.flatMap (·.declarations) := by
  induction fragments generalizing c with
  | nil => simp [collectAll]
  | cons f fragments ih =>
      rw [collectAll_cons, ih, declarations_collect]
      simp

/-- Takes in the fragments of all plugins, each with its plugin. -/
def ofFragments (fragments : List (Nat × Fragment)) : Collected :=
  fragments.foldl (fun c p => (c.collect p.1 p.2).1) {}

theorem imports_ofFragments (fragments : List (Nat × Fragment)) :
    (ofFragments fragments).imports = fragments.filterMap (·.2.import?) := by
  induction fragments using List.reverseRecOn with
  | nil => rfl
  | append_singleton fragments p ih =>
      unfold ofFragments at ih ⊢
      rw [List.foldl_append, List.foldl_cons, List.foldl_nil, imports_collect, ih,
        List.filterMap_append]
      cases himport : p.2.import? <;> simp [himport]

theorem declarations_ofFragments (fragments : List (Nat × Fragment)) :
    (ofFragments fragments).declarations = fragments.flatMap (·.2.declarations) := by
  induction fragments using List.reverseRecOn with
  | nil => rfl
  | append_singleton fragments p ih =>
      unfold ofFragments at ih ⊢
      rw [List.foldl_append, List.foldl_cons, List.foldl_nil, declarations_collect, ih,
        List.flatMap_append, List.flatMap_singleton]

end Collected

end Recompose
