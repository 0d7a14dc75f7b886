import Recompose.Proofs.EditSafety
import Recompose.Proofs.MemberNodes

/-!
# What the second pass overwrites

Only members of `this` are overwritten, each at most once: as a whole where the name is
known, and else only `this`. What is overwritten for two of them has no byte in common.
An excluded node is left as it is with all that is in it. The exception is a node that is
itself a piece of what is overwritten for an access around it, such as the `this` of a
member that is not excluded.
-/

namespace Recompose

open Script (Tree Kind)

theorem Span.covers_trans {a b c : Span} (hab : a.covers b = true) (hbc : b.covers c = true) :
    a.covers c = true := by
  rw [Span.covers_iff] at *
  omega

variable {text : List Char} {route : Route} {k : Kind} {s : Span} {t u v : Tree} {ps : List Tree}
  {p : Node} {a : Access} {use : AccessUse}

/-! ## Inside of nested trees -/

/-- A node of a nested tree is nested, inside of the tree. -/
theorem nested_of_mem_nodes (h : t.Nested text) (hp : p ∈ nodes route t) :
    p.tree.Nested text ∧ t.span.covers p.tree.span = true := by
  induction h generalizing route with
  | @node k s ps slice parts inside apart braced ordered fits ih =>
      rcases mem_nodes hp with rfl | ⟨i, u, hu, hp⟩
      · exact ⟨.node slice parts inside apart braced ordered fits,
          Span.covers_iff.mpr ⟨Nat.le_refl _, Nat.le_refl _⟩⟩
      · obtain ⟨hnested, hcovers⟩ := ih u hu hp
        exact ⟨hnested, Span.covers_trans (Span.covers_iff.mpr (inside u hu)) hcovers⟩

theorem eq_of_mem_ofMember {receiver : Span} {key : Tree}
    (h : a ∈ Access.ofMember s receiver key use) : a = ⟨s, receiver, key.staticName?, use⟩ := by
  unfold Access.ofMember at h
  split at h
  · cases h
  · exact List.mem_singleton.mp h

/-- The accesses of a tree are inside of it. -/
theorem covers_of_mem_accesses (h : t.Nested text) (ha : a ∈ accesses use t) :
    t.span.covers a.span = true := by
  induction h generalizing use with
  | @node k s ps slice parts inside apart braced ordered fits ih =>
      have hpart : ∀ {ts : List Tree} {as : List Access}, ts ⊆ ps → Gathers ts as → a ∈ as →
          s.covers a.span = true := by
        intro ts as hts hgathers ha
        obtain ⟨u, hu, use', ha⟩ := hgathers.mem ha
        exact Span.covers_trans (Span.covers_iff.mpr (inside u (hts hu))) (ih u (hts hu) ha)
      rcases accesses_node use k s ps with ⟨receiver, key, rest, -, rfl, hrest, -, heq⟩ | hgathers
      · rw [heq] at ha
        rcases List.mem_append.mp ha with ha | ha
        · rw [eq_of_mem_ofMember ha]
          exact Span.covers_iff.mpr ⟨Nat.le_refl _, Nat.le_refl _⟩
        · exact hpart (List.subset_cons_self receiver [key]) hrest ha
      · exact hpart (List.Subset.refl ps) hgathers ha

/-- What is overwritten for an access in one part is apart from all nodes of another. -/
theorem apart_of_parts (h : (Script.Tree.node k s ps).Nested text) (hu : u ∈ ps) (hv : v ∈ ps)
    (hne : u ≠ v) (ha : a ∈ accesses use u) (hp : p ∈ nodes route v) :
    a.replaced.Apart p.tree.span := by
  have hrow := h.row
  obtain ⟨hlo, hhi⟩ := (spread_accesses (hrow.nested u hu) use).inside a ha
  have hin := Span.covers_iff.mp (nested_of_mem_nodes (hrow.nested v hv) hp).2
  exact (hrow.apart_of_ne hu hv hne).of_inside hlo hhi hin.1 hin.2

/-- What is overwritten for an access is apart from a node around which the access does not
stand, or the node is a piece of it. -/
theorem apart_or_covers (h : t.Nested text) (ha : a ∈ accesses use t) (hp : p ∈ nodes route t)
    (hout : p.tree.span.covers a.span = false) :
    a.replaced.Apart p.tree.span ∨ a.replaced.covers p.tree.span = true := by
  induction h generalizing use route with
  | @node k s ps slice parts inside apart braced ordered fits ih =>
      have hnested : (Script.Tree.node k s ps).Nested text :=
        .node slice parts inside apart braced ordered fits
      rcases mem_nodes hp with rfl | ⟨i, v, hv, hp⟩
      · exact absurd (covers_of_mem_accesses hnested ha) (by rw [hout]; decide)
      have hpart : ∀ {u : Tree} {use : AccessUse}, u ∈ ps → a ∈ accesses use u →
          a.replaced.Apart p.tree.span ∨ a.replaced.covers p.tree.span = true := by
        intro u use hu ha
        by_cases hne : u = v
        · exact ih v hv (hne ▸ ha) hp
        · exact .inl (apart_of_parts hnested hu hv hne ha hp)
      have hin := (nested_of_mem_nodes (parts v hv) hp).2
      rcases accesses_node use k s ps with ⟨receiver, key, rest, -, rfl, hrest, -, heq⟩ | hgathers
      · rw [heq] at ha
        rcases List.mem_append.mp ha with ha | ha
        · cases eq_of_mem_ofMember ha
          by_cases hname : key.staticName?.isSome = true
          · have hwhole : Access.replaced ⟨s, receiver.span, key.staticName?, use⟩ = s :=
              if_pos hname
            rw [hwhole]
            exact .inr (Span.covers_trans (Span.covers_iff.mpr (inside v hv)) hin)
          · have hthis : Access.replaced ⟨s, receiver.span, key.staticName?, use⟩
                = receiver.span := if_neg hname
            rw [hthis]
            by_cases hne : receiver = v
            · exact .inr (hne ▸ hin)
            · have hbounds := Span.covers_iff.mp hin
              have hapart := hnested.row.apart_of_ne (List.mem_cons_self ..) hv hne
              exact .inl (hapart.of_inside (Nat.le_refl _) (Nat.le_refl _) hbounds.1 hbounds.2)
        · obtain ⟨u, hu, use', ha⟩ := hrest.mem ha
          exact hpart (List.mem_cons_of_mem receiver hu) ha
      · obtain ⟨u, hu, use', ha⟩ := hgathers.mem ha
        exact hpart hu ha

/-! ## All edits -/

/-- The members of `this` in a script, at any depth, that no excluded span covers. -/
def Script.membersOutside (script : Script) (excluded : List Span) : List Access :=
  (script.nodes.filterMap Node.access?).filter fun a => !excluded.any (·.covers a.span)

theorem accessesOutside_eq {script : Script} (h : script.Sound) (excluded : List Span) :
    script.accessesOutside excluded = script.membersOutside excluded := by
  rw [Script.accessesOutside, accesses_eq_nodes h, Script.membersOutside]

/-- All members of `this` outside of the excluded spans are resolved, one by one, and each
edit overwrites what is to be replaced for one of them. -/
theorem resolveMembers_overwrites [Script.Reader] {script : Script} (hs : script.Sound)
    (registry : Registry) (plugins : List Plugin) (settings : Settings) (excluded : List Span)
    (hexcluded : ∀ s ∈ excluded, ∃ p ∈ script.nodes, p.tree.span = s) :
    let r := resolveMembers script registry plugins settings excluded
    (script.nodes.map (·.route)).Nodup ∧
      r = (script.membersOutside excluded).foldl
        (Resolved.resolve script registry plugins settings) {} ∧
      ∃ replaced : List Access, replaced.Sublist (script.membersOutside excluded) ∧
        r.edits.spans = replaced.map Access.replaced ∧
        replaced.Pairwise (fun a b => a.replaced.Apart b.replaced) ∧
        ∀ a ∈ replaced, ∀ s ∈ excluded, a.replaced.Apart s ∨
          a.replaced.covers s = true ∧ s.covers a.span = false := by
  intro r
  have hmembers := accessesOutside_eq hs excluded
  have hr : r = (script.membersOutside excluded).foldl
      (Resolved.resolve script registry plugins settings) {} := by rw [← hmembers]; rfl
  obtain ⟨replaced, hsub, hspans⟩ := spans_foldl_resolve script registry plugins settings
    (script.membersOutside excluded) {}
  rw [← hr] at hspans
  have houtside : replaced.Sublist (script.accessesOutside excluded) := hmembers.symm ▸ hsub
  have hall := houtside.trans List.filter_sublist
  refine ⟨nodup_routes [] script.tree, hr, replaced, hsub, hspans,
    (spread_accesses hs.nested .other).apart.sublist hall, fun a ha s hexcl => ?_⟩
  obtain ⟨p, hp, rfl⟩ := hexcluded s hexcl
  have hout : p.tree.span.covers a.span = false := by
    have hnone := (List.mem_filter.mp (houtside.subset ha)).2
    rw [Bool.not_eq_true', List.any_eq_false] at hnone
    exact Bool.eq_false_iff.mpr (hnone _ hexcl)
  rcases apart_or_covers hs.nested (hall.subset ha) hp hout with hapart | hcovers
  · exact .inl hapart
  · exact .inr ⟨hcovers, hout⟩

/-- A call that is excluded, in front of a member with a computed key. -/
theorem resolveMembers_overwrites_computed :
    let source := "use(this.a); this[this.b] = 1"
    ∃ script, Script.read {} source = .ok script ∧
      (∀ s ∈ [(⟨0, 11⟩ : Span)], ∃ p ∈ script.nodes, p.tree.span = s) ∧
      let r := resolveMembers script {} (Options.allPlugins {}) {} [⟨0, 11⟩]
      (script.nodes.map (·.route)).Nodup ∧
        r = (script.membersOutside [⟨0, 11⟩]).foldl
          (Resolved.resolve script {} (Options.allPlugins {}) {}) {} ∧
        ∃ replaced : List Access, replaced.Sublist (script.membersOutside [⟨0, 11⟩]) ∧
          r.edits.spans = replaced.map Access.replaced ∧
          replaced.Pairwise (fun a b => a.replaced.Apart b.replaced) ∧
          ∀ a ∈ replaced, ∀ s ∈ [(⟨0, 11⟩ : Span)], a.replaced.Apart s ∨
            a.replaced.covers s = true ∧ s.covers a.span = false := by
  intro source
  have hspans : (Script.read {} source >>= fun script =>
      .ok ((script.nodes.map fun p => p.tree.span).contains ⟨0, 11⟩)) = .ok true := by
    decide +kernel
  obtain ⟨script, hread, hmem⟩ := exists_of_bind_eq_ok hspans
  have hnode : ∀ s ∈ [(⟨0, 11⟩ : Span)], ∃ p ∈ script.nodes, p.tree.span = s := by
    intro s hs
    rw [List.mem_singleton.mp hs]
    exact List.mem_map.mp (List.contains_iff_mem.mp (Except.ok.inj hmem))
  exact ⟨script, hread, hnode,
    resolveMembers_overwrites (Script.sound_of_read hread) _ _ _ _ hnode⟩

/-- The `this` of a member is excluded and overwritten all the same, since the member is
not. In front of a string that stands for no text, only `this` is overwritten. -/
theorem resolveMembers_overwrites_pieces :
    let registry : Registry := ⟨[("x", ⟨Methods.tag, true⟩)]⟩
    (∃ script, Script.read {} "this.x" = .ok script ∧
      (∃ p ∈ script.nodes, p.tree.span = ⟨0, 4⟩) ∧
      (resolveMembers script registry (Options.allPlugins {}) {} [⟨0, 4⟩]).edits.recorded
        = [⟨⟨0, 6⟩, "x"⟩]) ∧
    ∃ script, Script.read {} "this['\\ud800']" = .ok script ∧
      (∃ p ∈ script.nodes, p.tree.kind = .string none) ∧
      (resolveMembers script registry (Options.allPlugins {}) {} []).edits.recorded
        = [⟨⟨0, 4⟩, "instance.proxy"⟩] := by
  intro registry
  have hthis : (Script.read {} "this.x" >>= fun script =>
      .ok ((script.nodes.map fun p => p.tree.span).contains ⟨0, 4⟩,
        (resolveMembers script registry (Options.allPlugins {}) {} [⟨0, 4⟩]).edits.recorded))
      = .ok (true, [⟨⟨0, 6⟩, "x"⟩]) := by
    decide +kernel
  have hstring : (Script.read {} "this['\\ud800']" >>= fun script =>
      .ok ((script.nodes.map fun p => p.tree.kind).contains (.string none),
        (resolveMembers script registry (Options.allPlugins {}) {} []).edits.recorded))
      = .ok (true, [⟨⟨0, 4⟩, "instance.proxy"⟩]) := by
    decide +kernel
  obtain ⟨script, hread, hscript⟩ := exists_of_bind_eq_ok hthis
  obtain ⟨script', hread', hscript'⟩ := exists_of_bind_eq_ok hstring
  obtain ⟨hmem, hedits⟩ := Prod.mk.inj (Except.ok.inj hscript)
  obtain ⟨hmem', hedits'⟩ := Prod.mk.inj (Except.ok.inj hscript')
  exact ⟨⟨script, hread, List.mem_map.mp (List.contains_iff_mem.mp hmem), hedits⟩,
    script', hread', List.mem_map.mp (List.contains_iff_mem.mp hmem'), hedits'⟩

end Recompose
