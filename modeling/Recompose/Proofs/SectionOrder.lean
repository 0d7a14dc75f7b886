import Mathlib.Data.List.SplitBy
import Recompose.Proofs.JoinedCode

/-!
# The order of local code

Collected code is kept in sections that fragments open and fill in any order. What is
printed does not depend on that: it is what a stable sort of the contents by band and
plugin gives, cut where band or plugin changes (`localCode_isSorted`).

A stable sort has one result only. Two sorted lists are equal when they agree on the
contents of each band and plugin (`Contribution.eq_of_filter_isAt`), and that is what
both the sections and `List.mergeSort` are known to keep.
-/

namespace Recompose

/-- A content of the local code, with the band and the plugin that it is sorted by. -/
structure Contribution where
  priority : Priority
  plugin : Nat
  content : String
deriving DecidableEq, Repr

/-- What a fragment adds to the local code: its code, or a snippet that cannot be
merged. -/
def Fragment.contribution? [Script.Reader] (plugin : Nat) : Fragment → Option Contribution
  | code content priority => some ⟨priority, plugin, content⟩
  | hoist content priority =>
    match Snippet.ofText content with
    | .other => some ⟨priority, plugin, content⟩
    | .imports _ | .declares _ => none
  | property _ _ _ | replacement _ => none

/-- What the fragments of all plugins add to the local code, in their order. -/
def contributions [Script.Reader] (fragments : List (Nat × Fragment)) : List Contribution :=
  fragments.filterMap fun f => f.2.contribution? f.1

namespace Contribution

/-- Whether a content goes before another one, or beside it. -/
def le (a b : Contribution) : Bool :=
  a.priority.rank < b.priority.rank ||
    (a.priority.rank == b.priority.rank && a.plugin ≤ b.plugin)

def isAt (priority : Priority) (plugin : Nat) (a : Contribution) : Bool :=
  a.priority = priority ∧ a.plugin = plugin

/-- Whether two contents are of one band and one plugin. -/
def together (a b : Contribution) : Bool := b.isAt a.priority a.plugin

/-- Contents sorted by band and plugin, in the order of collection within these. -/
def sorted (contents : List Contribution) : List Contribution := contents.mergeSort le

/-- Runs of one band and plugin, line by line, with an empty line between the runs. -/
def print (contents : List Contribution) : String :=
  "\n\n".intercalate ((contents.splitBy together).map fun run =>
    "\n".intercalate (run.map (·.content)))

variable {a b : Contribution} {xs ys : List Contribution} {priority : Priority} {plugin : Nat}

theorem le_iff : a.le b = true ↔
    a.priority.rank < b.priority.rank ∨
      a.priority.rank = b.priority.rank ∧ a.plugin ≤ b.plugin := by
  simp [le]

theorem isAt_iff : a.isAt priority plugin = true ↔ a.priority = priority ∧ a.plugin = plugin := by
  simp [isAt]

theorem le_trans (a b c : Contribution) (hab : a.le b = true) (hbc : b.le c = true) :
    a.le c = true := by
  rw [le_iff] at hab hbc ⊢
  omega

theorem le_total (a b : Contribution) : (a.le b || b.le a) = true := by
  rw [Bool.or_eq_true, le_iff, le_iff]
  omega

theorem le_of_isAt (ha : a.isAt priority plugin = true) (hb : b.isAt priority plugin = true) :
    a.le b = true := by
  obtain ⟨rfl, rfl⟩ := isAt_iff.mp ha
  obtain ⟨hpriority, hplugin⟩ := isAt_iff.mp hb
  rw [le_iff, hpriority, hplugin]
  exact .inr ⟨rfl, Nat.le_refl _⟩

theorem isAt_of_le (hab : a.le b = true) (hba : b.le a = true) :
    b.isAt a.priority a.plugin = true := by
  rw [le_iff] at hab hba
  rw [isAt_iff]
  refine ⟨Priority.rank_inj ?_, ?_⟩ <;> omega

/-! ## Stable sorting -/

/-- What stands in a list stands in every list with the same contents per band and plugin. -/
theorem mem_of_filter_isAt (h : ∀ priority plugin,
    xs.filter (isAt priority plugin) = ys.filter (isAt priority plugin)) (ha : a ∈ xs) :
    a ∈ ys := by
  have hat : a.isAt a.priority a.plugin = true := isAt_iff.mpr ⟨rfl, rfl⟩
  have hmem : a ∈ xs.filter (isAt a.priority a.plugin) := List.mem_filter.mpr ⟨ha, hat⟩
  rw [h] at hmem
  exact List.mem_of_mem_filter hmem

/-- Of the lists with some contents per band and plugin, one is sorted. -/
theorem eq_of_filter_isAt (hxs : xs.Pairwise (le · · = true)) (hys : ys.Pairwise (le · · = true))
    (h : ∀ priority plugin,
      xs.filter (isAt priority plugin) = ys.filter (isAt priority plugin)) : xs = ys := by
  induction xs generalizing ys with
  | nil =>
      refine (List.eq_nil_iff_forall_not_mem.mpr fun b hb => ?_).symm
      cases mem_of_filter_isAt (fun p i => (h p i).symm) hb
  | cons x xs ih =>
      have hxmem : x ∈ ys := mem_of_filter_isAt h (List.mem_cons_self ..)
      obtain ⟨y, ys, rfl⟩ := List.exists_cons_of_ne_nil (List.ne_nil_of_mem hxmem)
      have hymem : y ∈ x :: xs :=
        mem_of_filter_isAt (fun p i => (h p i).symm) (List.mem_cons_self ..)
      -- Both heads are of the first band and plugin, and each is the first content there.
      have hself : ∀ z : Contribution, z.le z = true := fun z =>
        le_of_isAt (isAt_iff.mpr ⟨rfl, rfl⟩) (isAt_iff.mpr ⟨rfl, rfl⟩)
      have hyx : y.le x = true := by
        rcases List.mem_cons.mp hxmem with rfl | hmem
        · exact hself x
        · exact (List.pairwise_cons.mp hys).1 x hmem
      have hxy : x.le y = true := by
        rcases List.mem_cons.mp hymem with rfl | hmem
        · exact hself y
        · exact (List.pairwise_cons.mp hxs).1 y hmem
      have hat : x.isAt x.priority x.plugin = true := isAt_iff.mpr ⟨rfl, rfl⟩
      have hheads := h x.priority x.plugin
      rw [List.filter_cons_of_pos hat, List.filter_cons_of_pos (isAt_of_le hxy hyx)] at hheads
      obtain ⟨rfl, -⟩ := List.cons.inj hheads
      refine congrArg (x :: ·) (ih hxs.of_cons hys.of_cons fun p i => ?_)
      have hrest := h p i
      rw [List.filter_cons, List.filter_cons] at hrest
      split at hrest
      · exact (List.cons.inj hrest).2
      · exact hrest

theorem pairwise_sorted (contents : List Contribution) :
    (sorted contents).Pairwise (le · · = true) :=
  List.pairwise_mergeSort le_trans le_total contents

/-- Sorting keeps the order within each band and plugin. -/
theorem filter_sorted (contents : List Contribution) (priority : Priority) (plugin : Nat) :
    (sorted contents).filter (isAt priority plugin) = contents.filter (isAt priority plugin) := by
  have hpairwise : (contents.filter (isAt priority plugin)).Pairwise (le · · = true) := by
    rw [List.pairwise_iff_forall_sublist]
    intro x y hsub
    have hx := List.of_mem_filter (hsub.subset (List.mem_cons_self ..))
    have hy := List.of_mem_filter (hsub.subset (List.mem_cons_of_mem _ (List.mem_singleton_self _)))
    exact le_of_isAt hx hy
  have hsub : (contents.filter (isAt priority plugin)).Sublist (sorted contents) :=
    List.sublist_mergeSort le_trans le_total hpairwise List.filter_sublist
  have hfilter := hsub.filter (isAt priority plugin)
  rw [List.filter_filter] at hfilter
  simp only [Bool.and_self] at hfilter
  have hperm := (List.mergeSort_perm contents le).filter (isAt priority plugin)
  exact (hfilter.eq_of_length hperm.length_eq.symm).symm

end Contribution

/-! ## Sections -/

namespace Section

open Contribution

/-- The contents of a section. -/
def contributions (s : Section) : List Contribution := s.lines.map (⟨s.priority, s.plugin, ·⟩)

theorem isAt_of_mem_contributions {s : Section} {a : Contribution} (h : a ∈ s.contributions) :
    a.isAt s.priority s.plugin = true := by
  obtain ⟨line, -, rfl⟩ := List.mem_map.mp h
  exact isAt_iff.mpr ⟨rfl, rfl⟩

theorem filter_contributions (s : Section) (priority : Priority) (plugin : Nat) :
    s.contributions.filter (isAt priority plugin)
      = (if s.IsAt priority plugin then s.lines else []).map (⟨priority, plugin, ·⟩) := by
  by_cases hat : s.IsAt priority plugin
  · obtain ⟨rfl, rfl⟩ := hat
    rw [if_pos ⟨rfl, rfl⟩, List.filter_eq_self.mpr fun a ha => isAt_of_mem_contributions ha]
    rfl
  · rw [if_neg hat, List.map_nil, List.filter_eq_nil_iff]
    intro a ha hplace
    obtain ⟨hpriority, hplugin⟩ := isAt_iff.mp (isAt_of_mem_contributions ha)
    rw [isAt_iff, hpriority, hplugin] at hplace
    exact hat hplace

/-- Contents of a section are of one band and plugin with each other only. -/
theorem together_iff {s t : Section} {a b : Contribution} (ha : a ∈ s.contributions)
    (hb : b ∈ t.contributions) :
    a.together b = true ↔ t.IsAt s.priority s.plugin := by
  obtain ⟨line, -, rfl⟩ := List.mem_map.mp ha
  obtain ⟨line', -, rfl⟩ := List.mem_map.mp hb
  exact isAt_iff

end Section

section

open Contribution

variable {sections : List Section}

theorem filter_flatMap_contributions (sections : List Section) (priority : Priority)
    (plugin : Nat) :
    (sections.flatMap Section.contributions).filter (isAt priority plugin)
      = (linesAt sections priority plugin).map (⟨priority, plugin, ·⟩) := by
  rw [List.filter_flatMap, linesAt, List.map_flatMap]
  exact List.flatMap_congr fun s _ => s.filter_contributions priority plugin

theorem InOrder.pairwise_contributions (h : InOrder sections) :
    (sections.flatMap Section.contributions).Pairwise (le · · = true) := by
  rw [List.pairwise_flatMap]
  refine ⟨fun s _ => ?_, h.imp fun {s t} hbefore a ha b hb => ?_⟩
  · rw [List.pairwise_iff_forall_sublist]
    intro a b hsub
    have ha := Section.isAt_of_mem_contributions (hsub.subset (List.mem_cons_self ..))
    have hb := Section.isAt_of_mem_contributions
      (hsub.subset (List.mem_cons_of_mem _ (List.mem_singleton_self _)))
    exact le_of_isAt ha hb
  · obtain ⟨hpriority, hplugin⟩ := isAt_iff.mp (Section.isAt_of_mem_contributions ha)
    obtain ⟨hpriority', hplugin'⟩ := isAt_iff.mp (Section.isAt_of_mem_contributions hb)
    have hfollows := Section.follows_iff.mp hbefore
    rw [le_iff, hpriority, hplugin, hpriority', hplugin']
    omega

/-- The contents of sections, cut where band or plugin changes, are the sections. -/
theorem InOrder.splitBy_contributions (h : InOrder sections) (hlines : ∀ s ∈ sections, s.lines ≠ []) :
    (sections.flatMap Section.contributions).splitBy together
      = sections.map Section.contributions := by
  have hne : ∀ s ∈ sections, s.contributions ≠ [] := fun s hs hnil =>
    hlines s hs (List.map_eq_nil_iff.mp hnil)
  rw [List.flatMap_def]
  apply List.splitBy_flatten
  · intro hnil
    obtain ⟨s, hs, hempty⟩ := List.mem_map.mp hnil
    exact hne s hs hempty
  · intro run hrun
    obtain ⟨s, -, rfl⟩ := List.mem_map.mp hrun
    refine List.Pairwise.isChain ?_
    rw [List.pairwise_iff_forall_sublist]
    intro a b hsub
    exact (Section.together_iff (hsub.subset (List.mem_cons_self ..))
      (hsub.subset (List.mem_cons_of_mem _ (List.mem_singleton_self _)))).mpr ⟨rfl, rfl⟩
  · refine List.Pairwise.isChain (List.pairwise_map.mpr ?_)
    refine List.Pairwise.imp_of_mem ?_ h
    intro s t hs ht hbefore
    refine ⟨hne s hs, hne t ht, ?_⟩
    rw [Bool.eq_false_iff, Ne,
      Section.together_iff (List.getLast_mem (hne s hs)) (List.head_mem (hne t ht))]
    exact Section.not_isAt_of_follows hbefore

end

variable [Script.Reader]

/-- A content of a band and plugin is a line of these. -/
theorem Fragment.filter_contribution? (f : Fragment) (i : Nat) (priority : Priority)
    (plugin : Nat) :
    (f.contribution? i).filter (Contribution.isAt priority plugin)
      = if i = plugin then (f.line? priority).map (⟨priority, plugin, ·⟩) else none := by
  have hcontent : ∀ content p,
      (some (⟨p, i, content⟩ : Contribution)).filter (Contribution.isAt priority plugin)
        = if i = plugin then (if p = priority then some content else none).map
            (⟨priority, plugin, ·⟩) else none := by
    intro content p
    by_cases hi : i = plugin <;> by_cases hp : p = priority <;>
      simp [Option.filter, Contribution.isAt, hi, hp]
  cases f with
  | code content p => exact hcontent content p
  | hoist content p =>
      cases hsnippet : Snippet.ofText content with
      | other =>
          simp only [contribution?, line?, hsnippet]
          exact hcontent content p
      | imports _ | declares _ => simp [contribution?, line?, hsnippet]
  | property _ _ _ | replacement _ => simp [contribution?, line?]

namespace Collected

/-- The contents of a band and plugin, in the order of the fragments. -/
theorem filter_contributions (fragments : List (Nat × Fragment)) (priority : Priority)
    (plugin : Nat) :
    (contributions fragments).filter (Contribution.isAt priority plugin)
      = ((ofFragments fragments).lines priority plugin).map (⟨priority, plugin, ·⟩) := by
  rw [lines_ofFragments, List.map_flatMap, contributions, List.filter_filterMap,
    List.filterMap_eq_flatMap_toList]
  refine List.flatMap_congr fun f _ => ?_
  rw [Fragment.filter_contribution?]
  split
  · cases f.2.line? priority <;> rfl
  · rfl

/-- The sections hold the contents of the fragments, sorted. -/
theorem contributions_ofFragments (fragments : List (Nat × Fragment)) :
    (ofFragments fragments).sections.flatMap Section.contributions
      = Contribution.sorted (contributions fragments) := by
  have horder := inOrder_ofFragments fragments
  refine Contribution.eq_of_filter_isAt horder.pairwise_contributions
    (Contribution.pairwise_sorted _) fun priority plugin => ?_
  rw [filter_flatMap_contributions, Contribution.filter_sorted, filter_contributions]
  rfl

/-- Local code is printed in the order of a stable sort by band and plugin, each content
once. Only the contents of each band and plugin count for it, in their order. -/
theorem localCode_isSorted (fragments : List (Nat × Fragment)) :
    (ofFragments fragments).localCode
        = Contribution.print (Contribution.sorted (contributions fragments)) ∧
      (ofFragments fragments).contents.Perm ((contributions fragments).map (·.content)) ∧
      ∀ others : List (Nat × Fragment),
        (∀ priority plugin, (contributions others).filter (Contribution.isAt priority plugin)
          = (contributions fragments).filter (Contribution.isAt priority plugin)) →
        (ofFragments others).localCode = (ofFragments fragments).localCode := by
  have hprint : ∀ fragments : List (Nat × Fragment), (ofFragments fragments).localCode
      = Contribution.print (Contribution.sorted (contributions fragments)) := by
    intro fragments
    have hsplit := (inOrder_ofFragments fragments).splitBy_contributions
      (lines_ne_nil_of_mem_ofFragments fragments)
    rw [Contribution.print, ← contributions_ofFragments, hsplit, List.map_map, localCode]
    refine congrArg _ (List.map_congr_left fun s _ => ?_)
    rw [Function.comp_apply, Section.contributions, List.map_map]
    exact congrArg _ (List.map_id' _).symm
  refine ⟨hprint fragments, ?_, fun others hothers => ?_⟩
  · have hcontents : (ofFragments fragments).contents
        = (Contribution.sorted (contributions fragments)).map (·.content) := by
      rw [← contributions_ofFragments, List.map_flatMap, contents]
      refine List.flatMap_congr fun s _ => ?_
      rw [Section.contributions, List.map_map]
      exact (List.map_id' _).symm
    rw [hcontents]
    exact (List.mergeSort_perm _ _).map _
  · have hsorted : Contribution.sorted (contributions others)
        = Contribution.sorted (contributions fragments) := by
      refine Contribution.eq_of_filter_isAt (Contribution.pairwise_sorted _)
        (Contribution.pairwise_sorted _) fun priority plugin => ?_
      rw [Contribution.filter_sorted, Contribution.filter_sorted, hothers]
    rw [hprint, hprint, hsorted]

end Collected

end Recompose
