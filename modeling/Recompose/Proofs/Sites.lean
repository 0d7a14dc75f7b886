import Mathlib.Data.List.Forall2
import Recompose.Access

/-!
# Where members of `this` are accessed

A site is a member access on a bare `this`, with the trees that it is inside of.
The accesses of a tree are its sites, apart from private names, each with the
way in which it is used.
-/

namespace Recompose

open Script (Tree)

/-- A member access on a bare `this`. -/
structure Site where
  span : Span
  /-- Where `this` stands. -/
  receiver : Span
  key : Tree
  /-- The trees around the access, from the inside out. -/
  around : List Tree

namespace Site

/-- The name that is accessed; a computed key that is no string has none. -/
def name? (s : Site) : Option String := s.key.staticName?

/-- Private names are no members of a component. -/
def isPublic (s : Site) : Bool := s.key.kind != .privateName

def isOutside (s : Site) (excluded : List Span) : Bool := !excluded.any (·.covers s.span)

/-- What is replaced: the access, or `this` where the name is not known. -/
def replaced (s : Site) : Span := if s.name?.isSome then s.span else s.receiver

/-- The access at a site, in some use. -/
def access (s : Site) (use : AccessUse) : Access := ⟨s.span, s.receiver, s.name?, use⟩

end Site

mutual

/-- The sites of a tree inside of others. A string holds no code, and of the key of
a site only one that is computed does. -/
def sites (around : List Tree) : Tree → List Site
  | .node (.string _) _ _ => []
  | .node .member span [receiver, key] =>
    let inner := .node .member span [receiver, key] :: around
    if receiver.kind == .thisExpr then
      ⟨span, receiver.span, key, around⟩ :: if key.kind == .computedKey then sites inner key else []
    else sites inner receiver ++ sites inner key
  | .node kind span parts => sitesOfAll (.node kind span parts :: around) parts

def sitesOfAll (around : List Tree) : List Tree → List Site
  | [] => []
  | t :: ts => sites around t ++ sitesOfAll around ts

end

/-- The sites of a script, with the script itself around them. -/
def Script.sites (script : Script) : List Site := Recompose.sites [] script.tree

/-- All but strings and members have the sites of their parts. -/
theorem sites_node (kind : Script.Kind) (hstring : ∀ value, kind ≠ .string value)
    {parts : List Tree} (hmember : ∀ receiver key, kind = .member → parts ≠ [receiver, key])
    (around : List Tree) (span : Span) :
    sites around (.node kind span parts) = sitesOfAll (.node kind span parts :: around) parts := by
  unfold sites
  split <;> rename_i heq <;> cases heq
  · exact absurd rfl (hstring _)
  · exact absurd rfl (hmember _ _ rfl)
  · rfl

/-! ## Accesses -/

/-- An access is the one at a site, in some use. -/
def Site.HasAccess (s : Site) (a : Access) : Prop := ∃ use, a = s.access use

theorem hasAccess_ofMember (s : Site) (use : AccessUse) {ss : List Site} {as : List Access}
    (h : List.Forall₂ Site.HasAccess (ss.filter (·.isPublic)) as) :
    List.Forall₂ Site.HasAccess ((s :: ss).filter (·.isPublic))
      (Access.ofMember s.span s.receiver s.key use ++ as) := by
  unfold Access.ofMember
  split
  · rename_i hkind
    have hpublic : ¬ s.isPublic = true := by simp [Site.isPublic, hkind]
    rwa [List.filter_cons_of_neg hpublic]
  · rename_i hkind
    have hpublic : s.isPublic = true := by simpa [Site.isPublic] using hkind
    rw [List.filter_cons_of_pos hpublic]
    exact .cons ⟨use, rfl⟩ h

theorem hasAccess_append {ss ss' : List Site} {as as' : List Access}
    (h : List.Forall₂ Site.HasAccess (ss.filter (·.isPublic)) as)
    (h' : List.Forall₂ Site.HasAccess (ss'.filter (·.isPublic)) as') :
    List.Forall₂ Site.HasAccess ((ss ++ ss').filter (·.isPublic)) (as ++ as') := by
  rw [List.filter_append]
  exact List.rel_append h h'

/-- A tree has what it inherits from its parts. -/
theorem Script.Tree.of_parts {P : Tree → Prop}
    (h : ∀ kind span parts, (∀ t ∈ parts, P t) → P (.node kind span parts)) (t : Tree) : P t :=
  @Tree.rec P (fun ts => ∀ t ∈ ts, P t) h nofun
    (fun _ _ hhead htail => List.forall_mem_cons.mpr ⟨hhead, htail⟩) t

/-- The accesses of a tree in any use are those at its public sites. -/
def HasAccesses (t : Tree) : Prop :=
  ∀ use around,
    List.Forall₂ Site.HasAccess ((sites around t).filter (·.isPublic)) (accesses use t)

theorem hasAccess_sitesOfAll {ts : List Tree} (h : ∀ t ∈ ts, HasAccesses t) (around : List Tree) :
    List.Forall₂ Site.HasAccess ((sitesOfAll around ts).filter (·.isPublic))
      (accessesOfAll ts) := by
  induction ts with
  | nil =>
      rw [sitesOfAll, accessesOfAll]
      exact .nil
  | cons t ts ih =>
      obtain ⟨hhead, htail⟩ := List.forall_mem_cons.mp h
      rw [sitesOfAll, accessesOfAll]
      exact hasAccess_append (hhead .other around) (ih htail)

theorem hasAccesses (t : Tree) : HasAccesses t := by
  refine Tree.of_parts (fun kind span parts ih => ?_) t
  intro use around
  unfold accesses
  split <;> rename_i heq <;> cases heq
  · rw [sites]
    exact .nil
  · rename_i receiver key
    have hreceiver : HasAccesses receiver := ih _ (by simp)
    have hkey : HasAccesses key := ih _ (by simp)
    rw [sites]
    split
    · refine hasAccess_ofMember ⟨span, receiver.span, key, around⟩ use ?_
      split
      · exact hkey .other _
      · exact .nil
    · exact hasAccess_append (hreceiver .other _) (hkey .other _)
  · rw [sites_node .paren nofun nofun, sitesOfAll, sitesOfAll, List.append_nil]
    exact ih _ (List.mem_singleton_self _) use _
  · obtain ⟨htarget, hrest⟩ := List.forall_mem_cons.mp ih
    rw [sites_node .assign nofun nofun, sitesOfAll]
    exact hasAccess_append (htarget _ _) (hasAccess_sitesOfAll hrest _)
  · rw [sites_node .target nofun nofun, sitesOfAll, sitesOfAll, List.append_nil]
    exact ih _ (List.mem_singleton_self _) .assigned _
  · rw [sites_node .update nofun nofun, sitesOfAll, sitesOfAll, List.append_nil]
    exact ih _ (List.mem_singleton_self _) .updated _
  · obtain ⟨hcallee, hrest⟩ := List.forall_mem_cons.mp ih
    rw [sites_node .call nofun nofun, sitesOfAll]
    exact hasAccess_append (hcallee _ _) (hasAccess_sitesOfAll hrest _)
  · rename_i hstring hmember _ _ _ _ _
    rw [sites_node kind hstring hmember]
    exact hasAccess_sitesOfAll ih _

/-- The sites of a script that are resolved. -/
def Script.sitesOutside (script : Script) (excluded : List Span) : List Site :=
  (script.sites.filter (·.isPublic)).filter (·.isOutside excluded)

/-- The accesses of a script are those at its sites, in their order. -/
theorem hasAccess_sitesOutside (script : Script) (excluded : List Span) :
    List.Forall₂ Site.HasAccess (script.sitesOutside excluded)
      (script.accessesOutside excluded) := by
  refine List.rel_filter ?_ (hasAccesses script.tree .other [])
  rintro s _ ⟨use, rfl⟩
  exact Iff.rfl

end Recompose
