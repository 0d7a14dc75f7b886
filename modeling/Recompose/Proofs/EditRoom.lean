import Recompose.Code.Merge
import Recompose.Proofs.EditConflicts
import Recompose.Proofs.Script.Parser
import Recompose.Proofs.Script.Paths

/-!
# Room for edits

Spans that are `Span.Apart` never conflict, so edits can be applied when all
their spans are apart. Code is put into a script at few places: behind the names
of an import, behind an import, and at the top. None of these places is inside of
another item.
-/

namespace Recompose

open Script (Tree)

/-! ## Edits that are apart -/

theorem Span.Apart.not_conflicts {a b : Span} (h : a.Apart b) : ¬ a.Conflicts b := by
  rintro (⟨n, ⟨ha, ha'⟩, hb, hb'⟩ | ⟨heq, hlo, hhi⟩ | ⟨heq, hlo, hhi⟩) <;> rcases h with h | h <;>
    omega

theorem Span.apart_points (n m : Nat) : (Span.point n).Apart (Span.point m) := Nat.le_total n m

namespace Edits

def spans (edits : Edits) : List Span := edits.recorded.map Edit.span

@[simp] theorem spans_push (edits : Edits) (s : Span) (t : String) :
    (edits.push s t).spans = edits.spans ++ [s] := by
  simp [spans, push]

/-- Edits of pieces of the text that are apart from each other, all of them with
spans that were planned. -/
structure Confined (text : List Char) (planned : Span → Prop) (edits : Edits) : Prop where
  slices : ∀ s ∈ edits.spans, s.IsSlice text
  apart : edits.spans.Pairwise Span.Apart
  spans : ∀ s ∈ edits.spans, planned s

/-- An offset at which text can be inserted beside what is planned. -/
structure Insertable (text : List Char) (planned : Span → Prop) (n : Nat) : Prop where
  boundary : IsBoundary text n
  point : planned (Span.point n)
  apart : ∀ s, planned s → s.Apart (Span.point n)

namespace Confined

variable {text : List Char} {planned planned' : Span → Prop} {edits : Edits}

theorem empty (text : List Char) (planned : Span → Prop) : Confined text planned {} :=
  ⟨nofun, .nil, nofun⟩

theorem mono (h : edits.Confined text planned) (hplanned : ∀ s, planned s → planned' s) :
    edits.Confined text planned' :=
  { h with spans := fun s hs => hplanned s (h.spans s hs) }

theorem push {s : Span} (h : edits.Confined text planned) (hslice : s.IsSlice text)
    (hapart : ∀ u, planned u → u.Apart s) (t : String) :
    (edits.push s t).Confined text fun u => planned u ∨ u = s := by
  constructor
  · intro u hu
    rw [spans_push] at hu
    rcases List.mem_append.mp hu with hu | hu
    · exact h.slices u hu
    · rw [List.mem_singleton.mp hu]
      exact hslice
  · rw [spans_push]
    refine List.pairwise_append.mpr ⟨h.apart, List.pairwise_singleton .., ?_⟩
    intro u hu v hv
    rw [List.mem_singleton.mp hv]
    exact hapart u (h.spans u hu)
  · intro u hu
    rw [spans_push] at hu
    rcases List.mem_append.mp hu with hu | hu
    · exact .inl (h.spans u hu)
    · exact .inr (List.mem_singleton.mp hu)

theorem insert {n : Nat} (h : edits.Confined text planned) (hn : Insertable text planned n)
    (t : String) : (edits.insert n t).Confined text planned := by
  unfold Edits.insert
  split
  · exact h
  · refine (h.push (Span.isSlice_point hn.boundary) hn.apart t).mono ?_
    rintro s (hs | rfl)
    · exact hs
    · exact hn.point

/-- Edits that are apart can be applied. -/
theorem apply_eq_ok {source : String} (h : edits.Confined source.toList planned) :
    ∃ applied, edits.apply source = .ok applied := by
  refine Edits.apply_isOk_iff.mpr (applicable_iff.mpr ⟨?_, ?_⟩)
  · intro e he
    exact h.slices e.span (List.mem_map_of_mem he)
  · exact (List.pairwise_map.mp h.apart).imp Span.Apart.not_conflicts

end Confined

end Edits

/-! ## Places in a script -/

/-- The places in a script at which code is inserted. -/
inductive Script.Slot (script : Script) : Nat → Prop where
  /-- Behind a name of an import. -/
  | name {item part : Tree} (hitem : item ∈ script.items) (himport : item.isImport = true)
      (hpart : part ∈ item.parts) : script.Slot part.span.stop
  /-- Behind an import. -/
  | behind {item : Tree} (hitem : item ∈ script.items) (himport : item.isImport = true) :
      script.Slot item.span.stop
  | top : script.Slot script.topOffset

namespace Script

variable {script : Script} {n : Nat}

theorem Sound.row (h : script.Sound) :
    Row script.source.toList script.tree.span.start script.tree.span.stop script.items := by
  obtain ⟨source, dialect, ⟨k, s, ps⟩⟩ := script
  exact h.nested.row

theorem topOffset_of_items {first : Tree} {rest : List Tree} (h : script.items = first :: rest) :
    script.topOffset = first.span.start := by
  simp [topOffset, h]

theorem Slot.isBoundary (h : script.Slot n) (hs : script.Sound) :
    IsBoundary script.source.toList n := by
  cases h with
  | @name item part hitem _ hpart =>
      obtain ⟨k, s, ps⟩ := item
      exact ((hs.row.nested _ hitem).row.nested part hpart).isSlice.stop
  | behind hitem _ => exact (hs.row.nested _ hitem).isSlice.stop
  | top =>
      cases hitems : script.items with
      | nil =>
          have hzero : script.topOffset = 0 := by simp [topOffset, hitems]
          rw [hzero]
          exact .zero _
      | cons first rest =>
          rw [topOffset_of_items hitems]
          exact (hs.row.nested first (hitems ▸ List.mem_cons_self ..)).isSlice.start

/-- A place is inside of an import or in front of the first item. -/
theorem Slot.inside_or_top (h : script.Slot n) (hs : script.Sound) :
    (∃ item ∈ script.items, item.isImport = true ∧ item.span.start ≤ n ∧ n ≤ item.span.stop) ∨
      n = script.topOffset := by
  cases h with
  | @name item part hitem himport hpart =>
      have hnested := hs.row.nested item hitem
      obtain ⟨k, s, ps⟩ := item
      obtain ⟨hlo, hhi⟩ := hnested.row.inside part hpart
      have hle := (hnested.row.nested part hpart).le
      exact .inl ⟨_, hitem, himport, Nat.le_trans hlo hle, hhi⟩
  | @behind item hitem himport =>
      exact .inl ⟨item, hitem, himport, (hs.row.nested item hitem).le, Nat.le_refl _⟩
  | top => exact .inr rfl

/-- No place is inside of an item that is no import. -/
theorem Slot.apart (h : script.Slot n) (hs : script.Sound) {item : Tree} (hitem : item ∈ script.items)
    (himport : item.isImport = false) : item.span.Apart (Span.point n) := by
  have hrow := hs.row
  rcases h.inside_or_top hs with ⟨other, hother, himport', hlo, hhi⟩ | rfl
  · have hne : item ≠ other := by
      rintro rfl
      rw [himport] at himport'
      cases himport'
    exact (hrow.apart_of_ne hitem hother hne).of_inside (Nat.le_refl _) (Nat.le_refl _) hlo hhi
  · cases hitems : script.items with
    | nil =>
        rw [hitems] at hitem
        cases hitem
    | cons first rest =>
        rw [topOffset_of_items hitems]
        have hfirst : first ∈ script.items := hitems ▸ List.mem_cons_self ..
        by_cases heq : item = first
        · rw [heq]
          exact .inr (Nat.le_refl _)
        · have hle := (hrow.nested first hfirst).le
          exact (hrow.apart_of_ne hitem hfirst heq).of_inside (Nat.le_refl _) (Nat.le_refl _)
            (Nat.le_refl _) hle

theorem Sound.clear_of_item (hs : script.Sound) {item : Tree} (hitem : item ∈ script.items)
    (hclear : item.Clear n) (hlo : item.span.start ≤ n) (hhi : n ≤ item.span.stop) :
    script.tree.Clear n := by
  obtain ⟨source, dialect, ⟨k, s, ps⟩⟩ := script
  have hk : k ≠ .member := by
    rintro rfl
    cases hs.isProgram
  exact Tree.clear_of_part hs.nested hk hitem hclear hlo hhi

/-- No access goes across a place. -/
theorem Slot.clear (h : script.Slot n) (hs : script.Sound) : script.tree.Clear n := by
  cases h with
  | @name item part hitem himport hpart =>
      have hnested := hs.row.nested item hitem
      obtain ⟨k, s, ps⟩ := item
      have hk : k ≠ .member := by
        rintro rfl
        cases himport
      have hpart' := hnested.row.nested part hpart
      obtain ⟨hlo, hhi⟩ := hnested.row.inside part hpart
      have hclear : (Tree.node k s ps).Clear part.span.stop :=
        Tree.clear_of_part hnested hk hpart (Tree.clear_of_outside hpart' (.inr (Nat.le_refl _)))
          hpart'.le (Nat.le_refl _)
      exact hs.clear_of_item hitem hclear (Nat.le_trans hlo hpart'.le) hhi
  | @behind item hitem himport =>
      have hnested := hs.row.nested item hitem
      exact hs.clear_of_item hitem (Tree.clear_of_outside hnested (.inr (Nat.le_refl _))) hnested.le
        (Nat.le_refl _)
  | top =>
      cases hitems : script.items with
      | nil =>
          obtain ⟨source, dialect, ⟨k, s, ps⟩⟩ := script
          have hps : ps = [] := hitems
          have hk : k ≠ .member := by
            rintro rfl
            cases hs.isProgram
          subst hps
          exact Tree.clear_node hk nofun
      | cons first rest =>
          have hfirst : first ∈ script.items := hitems ▸ List.mem_cons_self ..
          have hnested := hs.row.nested first hfirst
          rw [topOffset_of_items hitems]
          exact hs.clear_of_item hfirst (Tree.clear_of_outside hnested (.inl (Nat.le_refl _)))
            (Nat.le_refl _) hnested.le

end Script

/-! ## Names for imports -/

/-- Names are added to the imports at slots of the script. -/
def ExistingImport.InSlot (script : Script) (e : ExistingImport) : Prop :=
  ∀ n, e.extensionPoint = some n → script.Slot n

theorem ExistingImport.InSlot.add {script : Script} {e : ExistingImport} (h : e.InSlot script)
    {decl : Tree} (hdecl : decl ∈ script.items) (himport : decl.isImport = true)
    (request : ImportRequest) : (e.add decl request).InSlot script := by
  intro n hn
  rcases Option.or_eq_some_iff.mp hn with hn | ⟨-, hn⟩
  · exact h n hn
  · split at hn
    · cases hn
    · obtain ⟨part, hpart, rfl⟩ := Option.map_eq_some_iff.mp hn
      exact .name hdecl himport (List.dropLast_subset _ (List.mem_of_getLast? hpart))

theorem inSlot_existingImports (script : Script) :
    ∀ x ∈ existingImports script, x.2.InSlot script := by
  have hdecls : ∀ decl ∈ script.items.filter (·.kind == .importDecl false),
      decl ∈ script.items ∧ decl.isImport = true := by
    intro decl hdecl
    obtain ⟨hmem, hkind⟩ := List.mem_filter.mp hdecl
    exact ⟨hmem, by simp [Script.Tree.isImport, eq_of_beq hkind]⟩
  have hnone : ∀ x ∈ ([] : Entries ExistingImport), x.2.InSlot script := nofun
  unfold existingImports
  generalize script.items.filter (·.kind == .importDecl false) = decls at hdecls
  generalize ([] : Entries ExistingImport) = found at hnone
  induction decls generalizing found with
  | nil => exact hnone
  | cons decl decls ih =>
      obtain ⟨hmem, himport⟩ := hdecls decl (List.mem_cons_self ..)
      refine ih (fun d hd => hdecls d (List.mem_cons_of_mem decl hd)) _ ?_
      refine Entries.forall_mem_update hnone ?_ fun e he => he.add hmem himport _
      exact fun _ hpoint => nomatch hpoint

theorem extensions_missing {group : ImportRequest} {found : Option ExistingImport} {x : Nat × String}
    (h : x ∈ (group.missing found).extensions) : ∃ e, found = some e ∧ e.extensionPoint = some x.1 := by
  unfold ImportRequest.missing at h
  dsimp only at h
  split at h
  · rename_i offset hpoint
    rw [List.mem_singleton.mp h]
    split at hpoint
    · cases hpoint
    · exact Option.bind_eq_some_iff.mp hpoint
  · cases h

theorem slot_extensions (c : Collected) (script : Script) (settings : Settings) :
    ∀ x ∈ (c.hoistedFor script settings).extensions, script.Slot x.1 := by
  have hslots : ∀ found : Option ExistingImport, (∀ e, found = some e → e.InSlot script) →
      ∀ group : ImportRequest, ∀ x ∈ (group.missing found).extensions, script.Slot x.1 := by
    intro found hfound group x hx
    obtain ⟨e, he, hpoint⟩ := extensions_missing hx
    exact hfound e he x.1 hpoint
  have hknown : ∀ source e, (existingImports script).get? source = some e → e.InSlot script :=
    fun source e he => inSlot_existingImports script _ (Entries.mem_of_get? he)
  have hnone : ∀ x ∈ ({} : Hoisted).extensions, script.Slot x.1 := nofun
  unfold Collected.hoistedFor
  dsimp only
  generalize ({} : Hoisted) = code at hnone
  generalize importGroups settings c.imports = groups
  induction groups generalizing code with
  | nil => exact hnone
  | cons group groups ih =>
      refine ih _ fun x hx => ?_
      rcases List.mem_append.mp hx with hx | hx
      · exact hnone x hx
      · exact hslots _ (hknown group.1) group.2 x hx

namespace Edits.Confined

variable {text : List Char} {planned : Span → Prop} {edits : Edits} {script : Script}

/-- Putting code into slots leaves room. -/
theorem extend (h : edits.Confined text planned) {hoisted : Hoisted}
    (hslots : ∀ x ∈ hoisted.extensions, Insertable text planned x.1) :
    (hoisted.extend edits).Confined text planned := by
  unfold Hoisted.extend
  generalize hoisted.extensions = extensions at hslots
  induction extensions generalizing edits with
  | nil => exact h
  | cons x extensions ih =>
      refine ih (h.insert (hslots x (List.mem_cons_self ..)) x.2) fun y hy => ?_
      exact hslots y (List.mem_cons_of_mem x hy)

theorem insertAfterImports (h : edits.Confined text planned)
    (hslots : ∀ n, script.Slot n → Insertable text planned n) (gap code : String) :
    (insertAfterImports script gap edits code).Confined text planned := by
  unfold Recompose.insertAfterImports
  split
  · exact h
  · split
    · rename_i stop hstop
      obtain ⟨item, hitem, rfl⟩ := Option.map_eq_some_iff.mp hstop
      obtain ⟨hmem, himport⟩ := List.mem_filter.mp (List.mem_of_getLast? hitem)
      exact h.insert (hslots _ (.behind hmem himport)) _
    · exact h.insert (hslots _ .top) _

/-- Hoisted code is put into slots of the script. -/
theorem hoisted (h : edits.Confined text planned)
    (hslots : ∀ n, script.Slot n → Insertable text planned n) (collected : Collected)
    (settings : Settings) (code : String) :
    (insertHoisted script ((collected.hoistedFor script settings).extend edits) code).Confined text
      planned := by
  have hextend := h.extend fun x hx => hslots x.1 (slot_extensions collected script settings x hx)
  exact hextend.insertAfterImports hslots _ code

end Edits.Confined

end Recompose
