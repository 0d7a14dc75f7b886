import Recompose.Edit
import Recompose.Proofs.Boundary

/-!
# When edits apply

Applying sorts the recorded edits and then compares each one with a single
remembered span, the last replaced range before it. This file shows that the
comparison misses nothing and refuses nothing by mistake: the edits apply
exactly when they are `Applicable`, a condition on the recorded edits in any
order, and an error names edits that are really at fault.

The argument has two halves. `conflict?_eq_none_iff` reads the loop off: it
finds nothing exactly when every edit starts past the end of every replaced
range before it (`Clear`). `clear_iff_not_conflicts` then says that for two
edits in sorted order this is the same as not being in conflict, a symmetric
notion that does not depend on the sort.
-/

namespace Recompose

/-! ## Calls and what they record -/

/-- A call that records an edit. -/
inductive EditCall where
  | insert (offset : Nat) (text : String)
  | overwrite (span : Span) (text : String)
  | remove (span : Span)

def EditCall.record (edits : Edits) : EditCall → Edits
  | .insert offset text => edits.insert offset text
  | .overwrite span text => edits.overwrite span text
  | .remove span => edits.remove span

/-- The edits after some calls. -/
def Edits.ofCalls (calls : List EditCall) : Edits := calls.foldl EditCall.record {}

/-- The edit that a call leaves behind: an insertion of nothing and the removal
of nothing leave none. -/
def EditCall.edit? : EditCall → Option Edit
  | .insert offset text => if text = "" then none else some ⟨⟨offset, offset⟩, text⟩
  | .overwrite span text => some ⟨span, text⟩
  | .remove span => if span.start = span.stop then none else some ⟨span, ""⟩

theorem EditCall.recorded_record (edits : Edits) (call : EditCall) :
    (call.record edits).recorded = edits.recorded ++ call.edit?.toList := by
  cases call with
  | insert offset text =>
      by_cases h : text = ""
      · simp [record, edit?, Edits.insert, h]
      · simp [record, edit?, Edits.insert, Edits.push, Span.point, h]
  | overwrite span text => rfl
  | remove span =>
      by_cases h : span.start = span.stop
      · simp [record, edit?, Edits.remove, Span.isEmpty, h]
      · simp [record, edit?, Edits.remove, Edits.push, Span.isEmpty, h]

theorem EditCall.recorded_foldl (calls : List EditCall) (edits : Edits) :
    (calls.foldl EditCall.record edits).recorded
      = edits.recorded ++ calls.filterMap EditCall.edit? := by
  induction calls generalizing edits with
  | nil => simp
  | cons call calls ih =>
      rw [List.foldl_cons, ih, recorded_record, List.filterMap_cons, List.append_assoc]
      cases call.edit? <;> rfl

theorem Edits.recorded_ofCalls (calls : List EditCall) :
    (Edits.ofCalls calls).recorded = calls.filterMap EditCall.edit? :=
  EditCall.recorded_foldl calls {}

/-! ## Conflicts -/

/-- Some byte lies in both spans. -/
def Span.SharesByte (a b : Span) : Prop :=
  ∃ n, (a.start ≤ n ∧ n < a.stop) ∧ (b.start ≤ n ∧ n < b.stop)

/-- An empty span strictly between the start and the end of another one. -/
def Span.Splits (p s : Span) : Prop :=
  p.start = p.stop ∧ s.start < p.start ∧ p.start < s.stop

/-- Edits of the two spans cannot both be applied. -/
def Span.Conflicts (a b : Span) : Prop := a.SharesByte b ∨ a.Splits b ∨ b.Splits a

theorem Span.SharesByte.symm {a b : Span} (h : a.SharesByte b) : b.SharesByte a :=
  h.imp fun _ hn => ⟨hn.2, hn.1⟩

theorem Span.Conflicts.symm {a b : Span} (h : a.Conflicts b) : b.Conflicts a := by
  rcases h with h | h | h
  · exact Or.inl h.symm
  · exact Or.inr (Or.inr h)
  · exact Or.inr (Or.inl h)

/-- The edits can be applied to the text: each one spans a piece of it, no two
replaced ranges share a byte, and no insertion falls inside a replaced range. -/
structure Applicable (text : List Char) (edits : List Edit) : Prop where
  slices : ∀ e ∈ edits, e.span.IsSlice text
  disjoint : edits.Pairwise fun a b => ¬ a.span.SharesByte b.span
  unsplit : ∀ p ∈ edits, ∀ e ∈ edits, ¬ p.span.Splits e.span

theorem applicable_iff {text : List Char} {edits : List Edit} :
    Applicable text edits ↔ (∀ e ∈ edits, e.span.IsSlice text) ∧
      edits.Pairwise fun a b => ¬ a.span.Conflicts b.span := by
  constructor
  · intro h
    refine ⟨h.slices, h.disjoint.imp_of_mem ?_⟩
    rintro a b ha hb hshare (hc | hc | hc)
    · exact hshare hc
    · exact h.unsplit a ha b hb hc
    · exact h.unsplit b hb a ha hc
  · rintro ⟨hslices, hpair⟩
    refine ⟨hslices, hpair.imp fun h hc => h (Or.inl hc), ?_⟩
    -- A span does not split itself, so pairs of different edits decide.
    have hself : ∀ e ∈ edits, ¬ e.span.Splits e.span := fun e _ h => Nat.lt_irrefl _ h.2.1
    have hsplits : edits.Pairwise fun p e => ¬ p.span.Splits e.span :=
      hpair.imp fun h hc => h (Or.inr (Or.inl hc))
    have hflip : edits.Pairwise fun p e => ¬ e.span.Splits p.span :=
      hpair.imp fun h hc => h (Or.inr (Or.inr hc))
    exact fun p hp e he => hsplits.forall_of_forall_of_flip hself hflip hp he

/-! ## The loop -/

namespace Edits

/-- The later edit `b` starts past the range that `a` replaces, if it replaces
any. -/
def Clear (a b : Edit) : Prop := a.isInsertion = false → a.span.stop ≤ b.span.start

theorem isInsertion_eq_false_iff {e : Edit} :
    e.isInsertion = false ↔ e.span.start ≠ e.span.stop := by
  simp [Edit.isInsertion, Span.isEmpty]

/-- One step of the loop: the remembered range does not reach into the edit, and
the loop goes on with the range that is the last one now. -/
theorem conflict?_cons_eq_none {covered : Option Span} {e : Edit} {es : List Edit} :
    conflict? covered (e :: es) = none ↔
      (∀ p ∈ covered, p.stop ≤ e.span.start) ∧
        conflict? (if e.isInsertion then covered else some e.span) es = none := by
  cases covered with
  | none => simp [conflict?]
  | some p =>
      by_cases h : e.span.start < p.stop
      · simp [conflict?, h, Nat.not_le_of_lt h]
      · simp [conflict?, h, Nat.le_of_not_lt h]

/-- The loop finds nothing exactly when nothing starts inside a replaced range
before it, although it remembers the last of these ranges only. -/
theorem conflict?_eq_none_iff {es : List Edit} (hord : ∀ e ∈ es, e.span.start ≤ e.span.stop)
    {covered : Option Span} :
    conflict? covered es = none ↔
      (∀ p ∈ covered, ∀ e ∈ es, p.stop ≤ e.span.start) ∧ es.Pairwise Clear := by
  induction es generalizing covered with
  | nil => simp [conflict?]
  | cons e es ih =>
      obtain ⟨hle, hord'⟩ := List.forall_mem_cons.mp hord
      rw [conflict?_cons_eq_none, ih hord', List.pairwise_cons]
      cases hins : e.isInsertion with
      | true =>
          have hclear : ∀ x ∈ es, Clear e x := fun x _ h => absurd h (by simp [hins])
          simp only [if_true, List.forall_mem_cons]
          exact ⟨fun ⟨h₁, h₂, h₃⟩ => ⟨fun p hp => ⟨h₁ p hp, h₂ p hp⟩, hclear, h₃⟩,
            fun ⟨h₁, _, h₃⟩ => ⟨fun p hp => (h₁ p hp).1, fun p hp => (h₁ p hp).2, h₃⟩⟩
      | false =>
          simp only [Bool.false_eq_true, if_false, List.forall_mem_cons, Option.mem_some_iff,
            forall_eq']
          constructor
          · rintro ⟨h₁, h₂, h₃⟩
            refine ⟨fun p hp => ⟨h₁ p hp, fun x hx => ?_⟩, fun x hx _ => h₂ x hx, h₃⟩
            -- Past the new range is past the old one, which ended before it.
            exact Nat.le_trans (h₁ p hp) (Nat.le_trans hle (h₂ x hx))
          · rintro ⟨h₁, h₂, h₃⟩
            exact ⟨fun p hp => (h₁ p hp).1, fun x hx => h₂ x hx hins, h₃⟩

/-- What the loop reports: two edits, one after the other, of which the second
starts inside the range that the first replaces. -/
theorem of_conflict?_eq_some {es : List Edit} {covered : Option Span} {first second : Span}
    (h : conflict? covered es = some (first, second)) :
    ∃ b, b.span = second ∧ b.span.start < first.stop ∧
      ((covered = some first ∧ b ∈ es)
        ∨ ∃ a, a.span = first ∧ a.isInsertion = false ∧ [a, b].Sublist es) := by
  induction es generalizing covered with
  | nil => cases h
  | cons e es ih =>
      have hstep : (∃ p, covered = some p ∧ e.span.start < p.stop
            ∧ first = p ∧ second = e.span)
          ∨ conflict? (if e.isInsertion then covered else some e.span) es
            = some (first, second) := by
        cases covered with
        | none => exact Or.inr (by simpa [conflict?] using h)
        | some p =>
            by_cases hlt : e.span.start < p.stop
            · obtain ⟨rfl, rfl⟩ : p = first ∧ e.span = second := by
                simpa [conflict?, hlt] using h
              exact Or.inl ⟨p, rfl, hlt, rfl, rfl⟩
            · exact Or.inr (by simpa [conflict?, hlt] using h)
      rcases hstep with ⟨p, hcov, hlt, rfl, rfl⟩ | hrest
      · exact ⟨e, rfl, hlt, Or.inl ⟨hcov, List.mem_cons_self ..⟩⟩
      · obtain ⟨b, hb, hlt, hwhere⟩ := ih hrest
        refine ⟨b, hb, hlt, ?_⟩
        rcases hwhere with ⟨hcov, hmem⟩ | ⟨a, ha, hins, hsub⟩
        · cases hins : e.isInsertion with
          | true => exact Or.inl ⟨by simpa [hins] using hcov, List.mem_cons_of_mem _ hmem⟩
          | false =>
              refine Or.inr ⟨e, by simpa [hins] using hcov, hins, ?_⟩
              exact (List.singleton_sublist.mpr hmem).cons_cons e
        · exact Or.inr ⟨a, ha, hins, hsub.cons e⟩

/-! ## The sort -/

theorem le_iff {a b : Edit} :
    le a b = true ↔ a.span.start < b.span.start ∨
      (a.span.start = b.span.start
        ∧ (a.span.start = a.span.stop ∨ b.span.start ≠ b.span.stop)) := by
  simp [le, Edit.isInsertion, Span.isEmpty]

theorem le_trans (a b c : Edit) (hab : le a b = true) (hbc : le b c = true) :
    le a c = true := by
  rw [le_iff] at *
  omega

theorem le_total (a b : Edit) : (le a b || le b a) = true := by
  rw [Bool.or_eq_true, le_iff, le_iff]
  omega

theorem sorted_perm (edits : Edits) : edits.sorted.Perm edits.recorded :=
  List.mergeSort_perm ..

theorem sorted_pairwise (edits : Edits) : edits.sorted.Pairwise fun a b => le a b = true :=
  List.pairwise_mergeSort le_trans le_total _

/-- For edits in sorted order, being clear of each other is not being in
conflict. -/
theorem clear_iff_not_conflicts {a b : Edit} (hle : le a b = true)
    (ha : a.span.start ≤ a.span.stop) (hb : b.span.start ≤ b.span.stop) :
    Clear a b ↔ ¬ a.span.Conflicts b.span := by
  rw [le_iff] at hle
  rw [Clear, isInsertion_eq_false_iff]
  constructor
  · rintro hclear (⟨n, hn, hn'⟩ | ⟨hs, hs', -⟩ | ⟨-, hs, hs'⟩) <;> omega
  · intro hfree hne
    refine Nat.le_of_not_lt fun hlt => hfree ?_
    by_cases hbe : b.span.start = b.span.stop
    · exact Or.inr (Or.inr ⟨hbe, by omega, hlt⟩)
    · exact Or.inl ⟨b.span.start, ⟨by omega, hlt⟩, Nat.le_refl _, by omega⟩

/-- The loop over the sorted edits finds nothing exactly when no two recorded
edits are in conflict. -/
theorem conflict?_sorted_eq_none_iff {edits : Edits}
    (hord : ∀ e ∈ edits.recorded, e.span.start ≤ e.span.stop) :
    conflict? none edits.sorted = none ↔
      edits.recorded.Pairwise fun a b => ¬ a.span.Conflicts b.span := by
  have hord' : ∀ e ∈ edits.sorted, e.span.start ≤ e.span.stop :=
    fun e he => hord e (edits.sorted_perm.mem_iff.mp he)
  have hclear : edits.sorted.Pairwise Clear ↔
      edits.sorted.Pairwise fun a b => ¬ a.span.Conflicts b.span := by
    have hiff := edits.sorted_pairwise.imp_of_mem fun ha hb hab =>
      clear_iff_not_conflicts hab (hord' _ ha) (hord' _ hb)
    exact ⟨fun h => (h.and hiff).imp fun hab => hab.2.mp hab.1,
      fun h => (h.and hiff).imp fun hab => hab.2.mpr hab.1⟩
  rw [conflict?_eq_none_iff hord', hclear,
    edits.sorted_perm.pairwise_iff fun h hc => h hc.symm]
  simp

/-! ## Applying -/

theorem outside?_eq_none_iff {text : List Char} {edits : Edits} :
    edits.outside? text = none ↔ ∀ e ∈ edits.recorded, e.span.IsSlice text := by
  simp only [outside?, List.find?_eq_none, ← Span.chars?_isSome_iff, Bool.not_eq_true,
    Option.isNone_eq_false_iff]

/-- The edit that is reported to lie outside is the first one that does. -/
theorem outside?_eq_some_iff {text : List Char} {edits : Edits} {e : Edit} :
    edits.outside? text = some e ↔ ¬ e.span.IsSlice text ∧
      ∃ before after, edits.recorded = before ++ e :: after
        ∧ ∀ d ∈ before, d.span.IsSlice text := by
  simp only [outside?, List.find?_eq_some_iff_append, ← Span.chars?_isSome_iff,
    Bool.not_eq_true', Bool.not_eq_true, Option.isNone_eq_false_iff, Option.isSome_eq_false_iff]

theorem apply_of_outside? {source : String} {edits : Edits} {e : Edit}
    (h : edits.outside? source.toList = some e) :
    edits.apply source = .error (.outOfBounds e.span (byteSize source.toList)) := by
  simp [apply, h]

theorem apply_of_conflict? {source : String} {edits : Edits} {first second : Span}
    (hin : edits.outside? source.toList = none)
    (h : conflict? none edits.sorted = some (first, second)) :
    edits.apply source = .error (.overlap first second) := by
  simp [apply, hin, h]

theorem apply_of_fits {source : String} {edits : Edits}
    (hin : edits.outside? source.toList = none) (h : conflict? none edits.sorted = none) :
    edits.apply source =
      let pieces := layout 0 source.toList edits.sorted
      .ok ⟨String.ofList (pieces.flatMap Piece.text), SourceMap.ofPieces pieces⟩ := by
  simp [apply, hin, h]

/-- Both checks pass exactly for applicable edits. -/
theorem checks_pass_iff {text : List Char} {edits : Edits} :
    edits.outside? text = none ∧ conflict? none edits.sorted = none ↔
      Applicable text edits.recorded := by
  rw [outside?_eq_none_iff, applicable_iff]
  exact and_congr_right fun h => conflict?_sorted_eq_none_iff fun e he => (h e he).ordered

/-- Edits can be applied exactly when they are applicable. -/
theorem apply_isOk_iff {source : String} {edits : Edits} :
    (∃ applied, edits.apply source = .ok applied) ↔
      Applicable source.toList edits.recorded := by
  rw [← checks_pass_iff]
  constructor
  · rintro ⟨applied, h⟩
    cases hin : edits.outside? source.toList with
    | some e => rw [apply_of_outside? hin] at h; cases h
    | none =>
        cases hc : conflict? none edits.sorted with
        | some pair => rw [apply_of_conflict? hin hc] at h; cases h
        | none => exact ⟨rfl, rfl⟩
  · rintro ⟨hin, hc⟩
    exact ⟨_, apply_of_fits hin hc⟩

/-- A reported overlap is one: between the spans of two recorded edits. -/
theorem conflicts_of_conflict?_sorted {edits : Edits} {first second : Span}
    (hord : ∀ e ∈ edits.recorded, e.span.start ≤ e.span.stop)
    (h : conflict? none edits.sorted = some (first, second)) :
    ∃ a b rest, edits.recorded.Perm (a :: b :: rest) ∧ a.span = first ∧ b.span = second
      ∧ first.Conflicts second := by
  obtain ⟨b, rfl, hlt, hwhere⟩ := of_conflict?_eq_some h
  rcases hwhere with ⟨hnone, -⟩ | ⟨a, rfl, hins, hsub⟩
  · cases hnone
  · obtain ⟨rest, hrest⟩ := hsub.exists_perm_append
    have hperm : edits.recorded.Perm (a :: b :: rest) := edits.sorted_perm.symm.trans hrest
    have hle := List.pairwise_pair.mp (edits.sorted_pairwise.sublist hsub)
    have ha := hord a (hperm.mem_iff.mpr (List.mem_cons_self ..))
    have hb := hord b (hperm.mem_iff.mpr (List.mem_cons_of_mem _ (List.mem_cons_self ..)))
    have hnot : ¬ Clear a b := fun hclear => Nat.not_le_of_lt hlt (hclear hins)
    rw [clear_iff_not_conflicts hle ha hb, Classical.not_not] at hnot
    exact ⟨a, b, rest, hperm, rfl, rfl, hnot⟩

/-- What becomes of any sequence of calls. They apply exactly when the edits
they recorded are applicable; otherwise the error names the first edit that is
no piece of the text, or else two recorded edits that are in conflict. -/
theorem apply_outcome (source : String) (calls : List EditCall) :
    ((∃ applied, (ofCalls calls).apply source = .ok applied) ↔
        Applicable source.toList (calls.filterMap EditCall.edit?))
      ∧ (∀ before e after, calls.filterMap EditCall.edit? = before ++ e :: after →
          (∀ d ∈ before, d.span.IsSlice source.toList) → ¬ e.span.IsSlice source.toList →
          (ofCalls calls).apply source
            = .error (.outOfBounds e.span (byteSize source.toList)))
      ∧ ((∀ e ∈ calls.filterMap EditCall.edit?, e.span.IsSlice source.toList) →
          ¬ Applicable source.toList (calls.filterMap EditCall.edit?) →
          ∃ a b rest, (calls.filterMap EditCall.edit?).Perm (a :: b :: rest)
            ∧ a.span.Conflicts b.span
            ∧ (ofCalls calls).apply source = .error (.overlap a.span b.span)) := by
  rw [← recorded_ofCalls]
  refine ⟨apply_isOk_iff, ?_, ?_⟩
  · intro before e after hsplit hbefore he
    exact apply_of_outside? (outside?_eq_some_iff.mpr ⟨he, before, after, hsplit, hbefore⟩)
  · intro hslices hnot
    have hin := outside?_eq_none_iff.mpr hslices
    cases hc : conflict? none (ofCalls calls).sorted with
    | none => exact absurd (checks_pass_iff.mp ⟨hin, hc⟩) hnot
    | some pair =>
        obtain ⟨a, b, rest, hperm, ha, hb, hconf⟩ :=
          conflicts_of_conflict?_sorted (fun e he => (hslices e he).ordered) hc
        exact ⟨a, b, rest, hperm, by rwa [ha, hb], by rw [ha, hb]; exact apply_of_conflict? hin hc⟩

end Edits

end Recompose
