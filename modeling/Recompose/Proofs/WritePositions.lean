import Recompose.Proofs.MemberEdits
import Recompose.Proofs.Resolution

/-!
# Where a script writes

A member of `this` is written to where it is the target of an assignment or an update, an
element of a pattern that is assigned to, or what a loop assigns to; parentheses, marks
that an expression is not null and `as` do not matter for that. `Route.isTarget` tells
this from what is around the member.

Plugins are told so of fewer members. No use is seen through `as` and such marks, and
parentheses around the target of an assignment hide it, though not those around what is
updated or stands in a pattern. These are the targets with `Route.isHidden`, for which a
replacement may be chosen that can only be read.
-/

namespace Recompose

open Script (Tree Kind)

namespace Route

/-- Whether what stands there is written to. -/
def isTarget : Route → Bool
  | (.paren, _) :: around | (.nonNull, _) :: around | (.constCast, _) :: around
  | (.cast, 0) :: around => isTarget around
  | (.assign, 0) :: _ | (.target, _) :: _ | (.update, _) :: _ => true
  | _ => false

/-- Whether something around a member hides how it is used. -/
def isHidden : Route → Bool
  | (.nonNull, _) :: _ | (.constCast, _) :: _ | (.cast, _) :: _ => true
  | (.paren, _) :: (.assign, _) :: _ => true
  | (.paren, _) :: around => isHidden around
  | _ => false

/-- Parentheses are seen through, but not in front of an assignment. -/
theorem isWrite_useThroughParens {route : Route}
    (h : ∀ i around, route ≠ (.assign, i) :: around) :
    route.useThroughParens.isWrite = (route.isTarget && !route.isHidden) := by
  fun_induction useThroughParens route with
  | case1 i around ih =>
      by_cases hassign : ∃ j rest, around = (.assign, j) :: rest
      · obtain ⟨j, rest, rfl⟩ := hassign
        rw [isHidden, Bool.not_true, Bool.and_false]
        rfl
      · have hnot : ∀ j rest, around ≠ (.assign, j) :: rest := fun j rest heq =>
          hassign ⟨j, rest, heq⟩
        rw [ih hnot, isTarget, isHidden]
        exact hnot
  | case2 i around => rfl
  | case3 i around => rfl
  | case4 route hparen htarget hupdate =>
      show false = _
      unfold isTarget
      split <;> simp_all [isHidden]

theorem isWrite_use (route : Route) :
    route.use.isWrite = (route.isTarget && !route.isHidden) := by
  unfold use
  split
  · rfl
  · rfl
  · rename_i hassign hcall
    by_cases hfirst : ∃ i around, route = (.assign, i) :: around
    · obtain ⟨i, around, rfl⟩ := hfirst
      match i with
      | 0 => exact absurd rfl (hassign around)
      | j + 1 => rfl
    · exact isWrite_useThroughParens fun i around heq => hfirst ⟨i, around, heq⟩

end Route

/-! ## What is only read -/

/-- Where a name is written to, no rule makes it one that is only read. -/
theorem ne_unref_of_rule {rule : TagRule} (h : rule ∈ propsRules ++ otherRules) {use : AccessUse}
    (huse : use.isWrite = true) (name other : String) : rule.2 use name ≠ .unref other := by
  simp only [propsRules, otherRules, List.cons_append, List.nil_append, List.mem_cons,
    List.not_mem_nil, or_false] at h
  rcases h with rfl | rfl | rfl | rfl | rfl | rfl | rfl | rfl | rfl | rfl | rfl | rfl <;>
    simp [huse]

theorem ne_unref_of_byTag? {rules : List TagRule} (hrules : rules ⊆ propsRules ++ otherRules)
    {use : AccessUse} (huse : use.isWrite = true) {name : String} {tag : Provenance}
    {r : Replacement} (h : byTag? rules use name tag = some r) (other : String) :
    r ≠ .unref other := by
  obtain ⟨rule, hlookup, rfl⟩ := Option.map_eq_some_iff.mp h
  obtain ⟨front, back, rfl, -⟩ := List.lookup_eq_some_iff.mp hlookup
  exact ne_unref_of_rule (hrules (List.mem_append_right _ (List.mem_cons_self ..))) huse name other

theorem ne_unref_of_isWrite {use : AccessUse} (huse : use.isWrite = true)
    {registered : Option Provenance} {name : Option String} {r : Replacement}
    (h : replacementFor? use registered name = some r) (other : String) : r ≠ .unref other := by
  unfold replacementFor? at h
  split at h
  · cases h
    nofun
  split at h
  · rcases Option.or_eq_some_iff.mp h with h | ⟨-, h⟩
    · exact ne_unref_of_byTag? (List.subset_append_left ..) huse h other
    · split at h
      · cases h
        nofun
      · exact ne_unref_of_byTag? (List.subset_append_right ..) huse h other
  · split_ifs at h <;> cases h <;> nofun

/-- Of all that is written for a name, only its `unref` reads as such. -/
theorem eq_unref_of_text {use : AccessUse} {registered : Option Provenance} {name : String}
    {r : Replacement} (h : replacementFor? use registered (some name) = some r)
    (htext : r.text = (Replacement.unref name).text) : r = .unref name := by
  rcases replacementFor?_cases h with ⟨n, hname, -, form, hform, rfl⟩ | ⟨hname, rfl⟩ |
    ⟨hname, rfl⟩ | ⟨hname, rfl⟩ | ⟨-, rfl⟩
  · cases hname
    have hlength := congrArg String.length htext
    have hlengths : ".value".length = 6 ∧ "props.".length = 6 ∧ "unref(".length = 6 ∧
        ")".length = 1 := by decide
    simp only [namedForms, List.mem_cons, List.not_mem_nil, or_false] at hform
    rcases hform with rfl | rfl | rfl | rfl
    · simp only [Replacement.text, String.length_append] at hlength
      omega
    · simp only [Replacement.text, String.length_append] at hlength
      omega
    · simp only [Replacement.text, String.length_append] at hlength
      omega
    · rfl
  · cases hname
    exact absurd htext (by decide)
  · cases hname
    exact absurd htext (by decide)
  · cases hname
    exact absurd htext (by decide)
  · have hform : Replacement.unref ∈ namedForms := by simp [namedForms]
    exact absurd htext.symm (text_ne_text_fallback hform)

/-! ## All accesses of a script -/

/-- Plugins are told that a member of `this` is written to where this is so and nothing
hides it. Without further plugins, what can only be read is never written there. -/
theorem resolveMembers_writes [Script.Reader] {script : Script} (hs : script.Sound)
    (registry : Registry) (excluded : List Span) :
    (∀ plugins settings, resolveMembers script registry plugins settings excluded
      = (script.membersOutside excluded).foldl
        (Resolved.resolve script registry plugins settings) {}) ∧
    (∀ p ∈ script.nodes, ∀ a ∈ p.access?,
      (a.use.isWrite = true ↔ p.route.isTarget = true ∧ p.route.isHidden = false)) ∧
    ∀ options : Options, options.plugins = [] →
      ∀ e ∈ (resolveMembers script registry options.allPlugins options.settings
        excluded).edits.recorded,
        ∃ p ∈ script.nodes, ∃ a ∈ p.access?, e.span = a.replaced ∧
          ∀ name ∈ a.name, e.text = (Replacement.unref name).text →
            p.route.isTarget = true → p.route.isHidden = true := by
  have huse : ∀ p ∈ script.nodes, ∀ a ∈ p.access?,
      (a.use.isWrite = true ↔ p.route.isTarget = true ∧ p.route.isHidden = false) := by
    intro p _ a ha
    rw [use_of_access? ha, Route.isWrite_use, Bool.and_eq_true, Bool.not_eq_true']
  refine ⟨fun plugins settings => ?_, huse, fun options hplugins e he => ?_⟩
  · rw [← accessesOutside_eq hs]
    rfl
  · rw [allPlugins_of_no_plugins hplugins, recorded_resolveMembers, accessesOutside_eq hs] at he
    obtain ⟨a, ha, hedit⟩ := List.mem_filterMap.mp he
    obtain ⟨p, hp, haccess⟩ := List.mem_filterMap.mp (List.mem_of_mem_filter ha)
    obtain ⟨r, hr, rfl⟩ := Option.map_eq_some_iff.mp hedit
    refine ⟨p, hp, a, haccess, rfl, fun name hname htext htarget => ?_⟩
    rw [Option.mem_def.mp hname] at hr
    have hunref := eq_unref_of_text hr htext
    have hread : ¬ a.use.isWrite = true := fun hwrite => ne_unref_of_isWrite hwrite hr name hunref
    rw [huse p hp a haccess] at hread
    exact Bool.not_eq_false _ |>.mp fun hshown => hread ⟨htarget, hshown⟩

/-- An element of a pattern, in parentheses, and a name that is only read. -/
theorem resolveMembers_writes_pattern :
    let source := "[(this.a)] = [this.b]"
    let registry : Registry := ⟨[("a", ⟨Setup.tag, true⟩), ("b", ⟨Setup.tag, true⟩)]⟩
    ∃ script, Script.read {} source = .ok script ∧
      (∀ plugins settings, resolveMembers script registry plugins settings []
        = (script.membersOutside []).foldl
          (Resolved.resolve script registry plugins settings) {}) ∧
      (∀ p ∈ script.nodes, ∀ a ∈ p.access?,
        (a.use.isWrite = true ↔ p.route.isTarget = true ∧ p.route.isHidden = false)) ∧
      ∀ options : Options, options.plugins = [] →
        ∀ e ∈ (resolveMembers script registry options.allPlugins options.settings
          []).edits.recorded,
          ∃ p ∈ script.nodes, ∃ a ∈ p.access?, e.span = a.replaced ∧
            ∀ name ∈ a.name, e.text = (Replacement.unref name).text →
              p.route.isTarget = true → p.route.isHidden = true := by
  intro source registry
  have hread : (Script.read {} source >>= fun _ => .ok ()) = .ok () := by decide +kernel
  obtain ⟨script, hread, -⟩ := exists_of_bind_eq_ok hread
  exact ⟨script, hread, resolveMembers_writes (Script.sound_of_read hread) registry []⟩

/-- The target of an assignment in parentheses is replaced by what can only be read, and so
is one that is said not to be null. -/
theorem resolveMembers_writes_hidden :
    let registry : Registry := ⟨[("a", ⟨Setup.tag, true⟩)]⟩
    let edits := fun script : Script =>
      (resolveMembers script registry (Options.allPlugins {}) {} []).edits.recorded
    let targets := fun script : Script =>
      (script.nodes.filter (·.route.isTarget)).filterMap Node.access?
    (∃ script, Script.read {} "(this.a) = 1" = .ok script ∧
      targets script = [⟨⟨1, 7⟩, ⟨1, 5⟩, some "a", .other⟩] ∧
      edits script = [⟨⟨1, 7⟩, "unref(a)"⟩]) ∧
    ∃ script, Script.read { typescript := true } "this.a! = 1" = .ok script ∧
      targets script = [⟨⟨0, 6⟩, ⟨0, 4⟩, some "a", .other⟩] ∧
      edits script = [⟨⟨0, 6⟩, "unref(a)"⟩] := by
  intro registry edits targets
  have hparens : (Script.read {} "(this.a) = 1" >>= fun script => .ok (targets script, edits script))
      = .ok ([⟨⟨1, 7⟩, ⟨1, 5⟩, some "a", .other⟩], [⟨⟨1, 7⟩, "unref(a)"⟩]) := by
    decide +kernel
  have hmark : (Script.read { typescript := true } "this.a! = 1" >>= fun script =>
      .ok (targets script, edits script))
      = .ok ([⟨⟨0, 6⟩, ⟨0, 4⟩, some "a", .other⟩], [⟨⟨0, 6⟩, "unref(a)"⟩]) := by
    decide +kernel
  obtain ⟨script, hread, hscript⟩ := exists_of_bind_eq_ok hparens
  obtain ⟨script', hread', hscript'⟩ := exists_of_bind_eq_ok hmark
  exact ⟨⟨script, hread, Prod.mk.inj (Except.ok.inj hscript)⟩,
    script', hread', Prod.mk.inj (Except.ok.inj hscript')⟩

end Recompose
