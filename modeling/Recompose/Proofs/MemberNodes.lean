import Recompose.Proofs.Script.Parser
import Recompose.Proofs.Sites

/-!
# Accesses and the way to them

A tree is walked with the way to each of its nodes: the constructs that the node is
inside of, from the inside out, and which of their parts leads on to it. How a member of
`this` is used can be told from the way to it alone.

In a nested tree, what is accessed are the members of `this` at any depth, one by one: a
walk leaves out only strings and names that are keys, which have no parts, and it looks
through what has one part.
-/

namespace Recompose

open Script (Tree Kind)

/-! ## Nodes -/

/-- The way to a node, from the inside out. -/
abbrev Route := List (Kind × Nat)

/-- A node of a tree. -/
structure Node where
  route : Route
  tree : Tree

mutual

/-- The nodes of a tree that stands somewhere, itself included. -/
def nodes (route : Route) : Tree → List Node
  | .node k s ps => ⟨route, .node k s ps⟩ :: nodesOfAll route k 0 ps

/-- The nodes of the parts of a construct, of which the first has the number `i`. -/
def nodesOfAll (route : Route) (k : Kind) (i : Nat) : List Tree → List Node
  | [] => []
  | t :: ts => nodes ((k, i) :: route) t ++ nodesOfAll route k (i + 1) ts

end

def Script.nodes (script : Script) : List Node := Recompose.nodes [] script.tree

variable {route : Route} {k : Kind} {s : Span} {t : Tree} {ts ps : List Tree} {p : Node}

theorem mem_nodesOfAll {i : Nat} (h : p ∈ nodesOfAll route k i ts) :
    ∃ j, i ≤ j ∧ ∃ t ∈ ts, p ∈ nodes ((k, j) :: route) t := by
  induction ts generalizing i with
  | nil =>
      rw [nodesOfAll] at h
      cases h
  | cons t ts ih =>
      rw [nodesOfAll] at h
      rcases List.mem_append.mp h with h | h
      · exact ⟨i, Nat.le_refl i, t, List.mem_cons_self .., h⟩
      · obtain ⟨j, hij, u, hu, hp⟩ := ih h
        exact ⟨j, Nat.le_of_succ_le hij, u, List.mem_cons_of_mem t hu, hp⟩

/-- A node of a tree is the tree itself or a node of a part. -/
theorem mem_nodes (h : p ∈ nodes route (.node k s ps)) :
    p = ⟨route, .node k s ps⟩ ∨ ∃ i, ∃ t ∈ ps, p ∈ nodes ((k, i) :: route) t := by
  rw [nodes] at h
  rcases List.mem_cons.mp h with h | h
  · exact .inl h
  · obtain ⟨i, -, t, ht, hp⟩ := mem_nodesOfAll h
    exact .inr ⟨i, t, ht, hp⟩

theorem suffix_of_mem_nodes (h : p ∈ nodes route t) : route <:+ p.route := by
  induction t using Tree.of_parts generalizing route with
  | h k s ps ih =>
      rcases mem_nodes h with rfl | ⟨i, t, ht, hp⟩
      · exact List.suffix_refl route
      · exact (List.suffix_cons _ route).trans (ih t ht hp)

theorem nodup_nodesOfAll (h : ∀ t ∈ ts, ∀ route, ((nodes route t).map (·.route)).Nodup)
    (route : Route) (k : Kind) (i : Nat) : ((nodesOfAll route k i ts).map (·.route)).Nodup := by
  induction ts generalizing i with
  | nil =>
      rw [nodesOfAll]
      exact .nil
  | cons t ts ih =>
      obtain ⟨hhead, htail⟩ := List.forall_mem_cons.mp h
      rw [nodesOfAll, List.map_append, List.nodup_append]
      refine ⟨hhead _, ih htail (i + 1), ?_⟩
      -- The ways to nodes of two parts differ where they enter the parts.
      rintro _ hmem _ hmem' rfl
      obtain ⟨p, hp, rfl⟩ := List.mem_map.mp hmem
      obtain ⟨q, hq, hroute⟩ := List.mem_map.mp hmem'
      obtain ⟨j, hij, u, -, hq⟩ := mem_nodesOfAll hq
      have hfirst := suffix_of_mem_nodes hp
      have hother := suffix_of_mem_nodes hq
      rw [hroute] at hother
      have heq : (k, i) :: route = (k, j) :: route :=
        (List.suffix_of_suffix_length_le hfirst hother (Nat.le_refl _)).eq_of_length rfl
      injection heq with hpair
      injection hpair with _ hnumber
      omega

/-- The ways to any two nodes differ. -/
theorem nodup_routes (route : Route) (t : Tree) : ((nodes route t).map (·.route)).Nodup := by
  induction t using Tree.of_parts generalizing route with
  | h k s ps ih =>
      rw [nodes, List.map_cons, List.nodup_cons]
      refine ⟨?_, nodup_nodesOfAll ih route k 0⟩
      intro hmem
      obtain ⟨p, hp, hroute⟩ := List.mem_map.mp hmem
      obtain ⟨j, -, t, -, hp⟩ := mem_nodesOfAll hp
      have hlonger := (suffix_of_mem_nodes hp).length_le
      rw [hroute] at hlonger
      exact absurd hlonger (Nat.not_succ_le_self _)

/-! ## Members of `this` -/

namespace Route

/-- How an expression around which there may be parentheses is used by what is around
them. -/
def useThroughParens : Route → AccessUse
  | (.paren, _) :: around => useThroughParens around
  | (.target, _) :: _ => .assigned
  | (.update, _) :: _ => .updated
  | _ => .other

/-- How a member is used. What is assigned to and what is called is the member itself. -/
def use : Route → AccessUse
  | (.assign, 0) :: _ => .assigned
  | (.call, 0) :: _ => .called
  | around => useThroughParens around

/-- How a tree of some kind is used, as far as this matters for a member in parentheses. -/
def useOf (route : Route) (kind : Kind) : AccessUse :=
  if kind == .member then route.use else route.useThroughParens

end Route

/-- The access that a node is, if a member of a bare `this` stands there. Private names are no
members of a component. -/
def Node.access? (p : Node) : Option Access :=
  match p.tree with
  | .node .member span [receiver, key] =>
    if receiver.kind == .thisExpr && key.kind != .privateName then
      some ⟨span, receiver.span, key.staticName?, p.route.use⟩
    else none
  | _ => none

theorem use_of_access? {a : Access} (h : p.access? = some a) : a.use = p.route.use := by
  unfold Node.access? at h
  split at h
  · split at h <;> cases h
    rfl
  · cases h

theorem access?_eq_none (hk : k ≠ .member) : Node.access? ⟨route, .node k s ps⟩ = none := by
  unfold Node.access?
  split
  · rename_i heq
    cases heq
    exact absurd rfl hk
  · rfl

/-- The accesses in a tree are the members of `this` in it, each in the use that the way to
it tells of. -/
def AccessesOfNodes (t : Tree) : Prop :=
  ∀ route : Route, accesses (route.useOf t.kind) t = (nodes route t).filterMap Node.access?

theorem accessesOfAll_eq_nodes (hts : ∀ t ∈ ts, AccessesOfNodes t) {i : Nat}
    (hother : ∀ j kind, i ≤ j → Route.useOf ((k, j) :: route) kind = .other) :
    accessesOfAll ts = (nodesOfAll route k i ts).filterMap Node.access? := by
  induction ts generalizing i with
  | nil => rw [accessesOfAll, nodesOfAll, List.filterMap_nil]
  | cons t ts ih =>
      obtain ⟨hhead, htail⟩ := List.forall_mem_cons.mp hts
      have hrest := ih htail fun j kind hj => hother j kind (Nat.le_of_succ_le hj)
      rw [accessesOfAll, nodesOfAll, List.filterMap_append, ← hhead, hrest,
        hother i t.kind (Nat.le_refl i)]

/-- What is no member comes by its accesses from its parts. -/
theorem filterMap_nodes (hk : k ≠ .member) :
    (nodes route (.node k s ps)).filterMap Node.access?
      = (nodesOfAll route k 0 ps).filterMap Node.access? := by
  rw [nodes, List.filterMap_cons_none (access?_eq_none hk)]

theorem filterMap_nodes_one (hk : k ≠ .member) (ht : AccessesOfNodes t) :
    (nodes route (.node k s [t])).filterMap Node.access?
      = accesses (Route.useOf ((k, 0) :: route) t.kind) t := by
  rw [filterMap_nodes hk, nodesOfAll, nodesOfAll, List.append_nil, ht]

/-- Where a construct uses its first part only. -/
theorem filterMap_nodes_first (hk : k ≠ .member) (ht : AccessesOfNodes t)
    (hts : ∀ t ∈ ts, AccessesOfNodes t)
    (hother : ∀ j kind, 1 ≤ j → Route.useOf ((k, j) :: route) kind = .other) :
    (nodes route (.node k s (t :: ts))).filterMap Node.access?
      = accesses (Route.useOf ((k, 0) :: route) t.kind) t ++ accessesOfAll ts := by
  rw [filterMap_nodes hk, nodesOfAll, List.filterMap_append, ht, Nat.zero_add,
    accessesOfAll_eq_nodes hts hother]

theorem accesses_of_thisExpr (use : AccessUse) (hkind : t.kind = .thisExpr)
    (hfits : t.kind.fits t.parts = true) : accesses use t = [] := by
  obtain ⟨k, s, ps⟩ := t
  cases hkind
  have hps : ps = [] := List.isEmpty_iff.mp hfits
  rw [hps, accesses, accessesOfAll]
  all_goals simp

/-- A name that is a key holds no access. -/
theorem accesses_of_isKey (use : AccessUse) (hkey : t.isKey = true)
    (hkind : t.kind ≠ .computedKey) : accesses use t = [] := by
  unfold Tree.isKey at hkey
  split at hkey
  · rw [List.isEmpty_iff.mp hkey, accesses, accessesOfAll]
    all_goals simp
  · rw [List.isEmpty_iff.mp hkey, accesses, accessesOfAll]
    all_goals simp
  · exact absurd rfl hkind
  · cases hkey

theorem toList_access? {receiver key : Tree} (hreceiver : receiver.kind = .thisExpr) :
    (Node.access? ⟨route, .node .member s [receiver, key]⟩).toList
      = Access.ofMember s receiver.span key route.use := by
  by_cases hkey : key.kind = .privateName <;>
    simp [Node.access?, Access.ofMember, hreceiver, hkey]

theorem accesses_member {receiver key : Tree} (hreceiver : AccessesOfNodes receiver)
    (hkey : AccessesOfNodes key) (hisKey : key.isKey = true)
    (hfits : receiver.kind.fits receiver.parts = true) (route : Route) :
    accesses route.use (.node .member s [receiver, key])
      = (nodes route (.node .member s [receiver, key])).filterMap Node.access? := by
  have hparts : (nodesOfAll route .member 0 [receiver, key]).filterMap Node.access?
      = accesses .other receiver ++ accesses .other key := by
    have hother : ∀ (j : Nat) (kind : Kind), 0 ≤ j →
        Route.useOf ((.member, j) :: route) kind = .other := by
      intro j kind _
      simp [Route.useOf, Route.use, Route.useThroughParens]
    have hall : ∀ t ∈ [receiver, key], AccessesOfNodes t := by simp [hreceiver, hkey]
    rw [← accessesOfAll_eq_nodes hall hother, accessesOfAll, accessesOfAll, accessesOfAll,
      List.append_nil]
  rw [nodes, List.filterMap_cons, accesses, hparts]
  by_cases hthis : receiver.kind = .thisExpr
  · have hown : (Node.access? ⟨route, .node .member s [receiver, key]⟩).toList
        = Access.ofMember s receiver.span key route.use := toList_access? hthis
    rw [if_pos (beq_iff_eq.mpr hthis), ← hown, accesses_of_thisExpr .other hthis hfits,
      List.nil_append]
    have hrest : (if key.kind == .computedKey then accesses .other key else [])
        = accesses .other key := by
      split
      · rfl
      · rename_i hkind
        exact (accesses_of_isKey .other hisKey (by simpa using hkind)).symm
    rw [hrest]
    cases Node.access? ⟨route, .node .member s [receiver, key]⟩ <;> rfl
  · have hnone : Node.access? ⟨route, .node .member s [receiver, key]⟩ = none := by
      simp [Node.access?, hthis]
    rw [if_neg (by simpa using hthis), hnone]

/-- Constructs around an expression that use it in no way of their own. -/
theorem useOf_other (hk : k ≠ .paren ∧ k ≠ .target ∧ k ≠ .update) {j : Nat}
    (hfirst : k = .assign ∨ k = .call → j ≠ 0) (kind : Kind) :
    Route.useOf ((k, j) :: route) kind = .other := by
  obtain ⟨hparen, htarget, hupdate⟩ := hk
  have hthrough : Route.useThroughParens ((k, j) :: route) = .other := by
    unfold Route.useThroughParens
    split <;> simp_all
  unfold Route.useOf Route.use
  split
  · split <;> simp_all
  · exact hthrough

theorem useOf_paren (j : Nat) (kind : Kind) :
    Route.useOf ((.paren, j) :: route) kind = route.useThroughParens := ite_self _

theorem useOf_target (j : Nat) (kind : Kind) :
    Route.useOf ((.target, j) :: route) kind = .assigned := ite_self _

theorem useOf_update (j : Nat) (kind : Kind) :
    Route.useOf ((.update, j) :: route) kind = .updated := ite_self _

/-- What a nested tree accesses are the members of `this` in it. -/
theorem accessesOfNodes {text : List Char} (h : t.Nested text) : AccessesOfNodes t := by
  induction h with
  | @node k s ps slice parts inside apart braced ordered fits ih =>
      intro route
      have hone : ∀ {t : Tree}, ps = [t] → AccessesOfNodes t := by
        rintro t rfl
        exact ih t (List.mem_singleton_self t)
      unfold accesses
      split <;> rename_i heq <;> cases heq
      · rename_i value
        rw [List.isEmpty_iff.mp fits, filterMap_nodes (k := .string value) nofun, nodesOfAll,
          List.filterMap_nil]
      · rename_i receiver key
        have hreceiver := parts receiver (List.mem_cons_self ..)
        have hmember := accesses_member (s := s) (ih receiver (List.mem_cons_self ..))
          (ih key (List.mem_cons_of_mem _ (List.mem_singleton_self key))) fits hreceiver.fits route
        rw [← hmember, accesses]
        rfl
      · rw [filterMap_nodes_one (k := .paren) nofun (hone rfl), useOf_paren]
        rfl
      · obtain ⟨htarget, hrest⟩ := List.forall_mem_cons.mp ih
        rw [filterMap_nodes_first (k := .assign) nofun htarget hrest fun j kind hj => ?_]
        · rfl
        · exact useOf_other (by decide) (fun _ => Nat.ne_of_gt hj) kind
      · rw [filterMap_nodes_one (k := .target) nofun (hone rfl), useOf_target]
      · rw [filterMap_nodes_one (k := .update) nofun (hone rfl), useOf_update]
      · obtain ⟨hcallee, hrest⟩ := List.forall_mem_cons.mp ih
        rw [filterMap_nodes_first (k := .call) nofun hcallee hrest fun j kind hj => ?_]
        · rfl
        · exact useOf_other (by decide) (fun _ => Nat.ne_of_gt hj) kind
      · rename_i hstring hmember hparen hassign htarget hupdate hcall
        have hk : k ≠ .member := by
          rintro rfl
          match ps, fits with
          | [receiver, key], _ => exact hmember receiver key rfl rfl
        -- With other parts than those of the cases above, these kinds would not fit.
        have hthrough : k ≠ .paren ∧ k ≠ .target ∧ k ≠ .update := by
          refine ⟨?_, ?_, ?_⟩ <;> rintro rfl <;>
            obtain ⟨t, rfl⟩ := List.length_eq_one_iff.mp (eq_of_beq fits)
          · exact hparen t rfl rfl
          · exact htarget t rfl rfl
          · exact hupdate t rfl rfl
        rw [filterMap_nodes hk]
        cases ps with
        | nil => rfl
        | cons t ts =>
            refine accessesOfAll_eq_nodes ih fun j kind _ => useOf_other hthrough ?_ kind
            rintro (rfl | rfl)
            · exact absurd rfl (hassign t ts rfl)
            · exact absurd rfl (hcall t ts rfl)

theorem accesses_eq_nodes {script : Script} (h : script.Sound) :
    accesses .other script.tree = script.nodes.filterMap Node.access? := by
  have huse : Route.useOf [] script.tree.kind = .other := by
    rw [h.isProgram]
    rfl
  rw [← huse]
  exact accessesOfNodes h.nested []

end Recompose
