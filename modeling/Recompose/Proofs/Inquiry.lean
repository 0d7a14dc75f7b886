import Recompose.Members
import Recompose.Proofs.Collected

/-!
# Asking the plugins about an access

All plugins are asked about an access, one after the other. What the next one is
told depends on what those before it answered: `seenSource`. `Inquiry.after` is
what is known after some plugins were asked; `Inquiry.ask_after` asks one more,
and `Inquiry.foldl_ask` all that are left.
-/

namespace Recompose

/-- Whether an answer holds a replacement. -/
def replaces (answer : List Fragment) : Bool := answer.any fun f => f.replacement?.isSome

/-- The source of an access that a plugin is told, when others were asked before
and answered: who registered the name, or else the first plugin that replaced
the access. -/
def seenSource (registered : Option Provenance) (before : List (Plugin × List Fragment)) :
    Option Provenance :=
  match registered with
  | some tag => some tag
  | none => (before.find? fun asked => replaces asked.2).map fun asked => "claimed:" ++ asked.1.name

/-- Every answer is that of its plugin, which was told what those in front of it
answered. -/
def Answered (settings : Settings) (access : Access) (text : String)
    (registered : Option Provenance) (asked : List (Plugin × List Fragment)) : Prop :=
  ∀ before plugin answer later, asked = before ++ (plugin, answer) :: later →
    answer = plugin.visit settings ⟨access.name, access.use, seenSource registered before, text⟩

theorem Answered.nil {settings : Settings} {access : Access} {text : String}
    {registered : Option Provenance} : Answered settings access text registered [] := by
  intro before plugin answer later h
  cases before <;> cases h

theorem Answered.append {settings : Settings} {access : Access} {text : String}
    {registered : Option Provenance} {asked : List (Plugin × List Fragment)}
    (h : Answered settings access text registered asked) (plugin : Plugin) :
    Answered settings access text registered (asked ++ [(plugin, plugin.visit settings
      ⟨access.name, access.use, seenSource registered asked, text⟩)]) := by
  intro before p answer later hsplit
  rcases List.eq_nil_or_concat later with rfl | ⟨front, last, rfl⟩
  · obtain ⟨rfl, hlast⟩ := List.append_inj' hsplit rfl
    cases hlast
    rfl
  · rw [List.concat_eq_append, ← List.cons_append, ← List.append_assoc] at hsplit
    exact h before p answer front (List.append_inj' hsplit rfl).1

/-- Who registered a name is told to all plugins. -/
theorem Answered.flatMap_registered {settings : Settings} {access : Access} {text : String}
    {tag : Provenance} {asked : List (Plugin × List Fragment)}
    (h : Answered settings access text (some tag) asked) :
    asked.flatMap (·.2)
      = (asked.map (·.1)).flatMap (·.visit settings ⟨access.name, access.use, some tag, text⟩) := by
  rw [List.flatMap_map, List.flatMap_def, List.flatMap_def]
  congr 1
  apply List.map_congr_left
  intro a ha
  obtain ⟨before, later, hsplit⟩ := List.append_of_mem ha
  exact h before a.1 a.2 later hsplit

/-- The first replacement among the answers. -/
def firstReplacement? (asked : List (Plugin × List Fragment)) : Option String :=
  (asked.flatMap (·.2)).findSome? Fragment.replacement?

theorem isSome_firstReplacement? (asked : List (Plugin × List Fragment)) :
    (firstReplacement? asked).isSome = asked.any fun a => replaces a.2 := by
  rw [firstReplacement?, List.isSome_findSome?, List.any_flatMap]
  rfl

theorem firstReplacement?_append (asked later : List (Plugin × List Fragment)) :
    firstReplacement? (asked ++ later)
      = (firstReplacement? asked).or (firstReplacement? later) := by
  rw [firstReplacement?, List.flatMap_append, List.findSome?_append]
  rfl

/-- The source changes with the first replacement of an access that nobody
registered. -/
theorem seenSource_append (registered : Option Provenance)
    (asked : List (Plugin × List Fragment)) (plugin : Plugin) (answer : List Fragment) :
    seenSource registered (asked ++ [(plugin, answer)])
      = if (firstReplacement? asked).isNone && replaces answer then
          (seenSource registered asked).or (some (Provenance.claimed plugin.name))
        else seenSource registered asked := by
  cases registered with
  | some tag => simp [seenSource]
  | none =>
      have hnone : (firstReplacement? asked).isNone
          = (asked.find? fun a => replaces a.2).isNone := by
        rw [← Option.not_isSome, ← Option.not_isSome, isSome_firstReplacement?, List.isSome_find?]
      simp only [seenSource, List.find?_append, hnone]
      cases asked.find? fun a => replaces a.2 with
      | some first => simp
      | none => cases hreplaces : replaces answer <;> simp [hreplaces, Provenance.claimed]

/-- Once an access is replaced, nobody sees it as unclaimed. -/
theorem seenSource_isSome {registered : Option Provenance}
    {before : List (Plugin × List Fragment)} {asked : Plugin × List Fragment}
    (hmem : asked ∈ before) (h : replaces asked.2 = true) :
    (seenSource registered before).isSome = true := by
  cases registered with
  | some tag => rfl
  | none =>
      rw [seenSource, Option.isSome_map, List.find?_isSome]
      exact ⟨asked, hmem, h⟩

namespace Collected

variable [Script.Reader] {c : Collected}

/-- Takes in the answers of plugins, the first of which has the number `k`. -/
def gather (c : Collected) (k : Nat) (asked : List (Plugin × List Fragment)) : Collected :=
  (asked.zipIdx k).foldl (fun c a => c.collectAll a.2 a.1.2) c

theorem gather_cons (k : Nat) (a : Plugin × List Fragment) (asked : List (Plugin × List Fragment)) :
    c.gather k (a :: asked) = (c.collectAll k a.2).gather (k + 1) asked := rfl

theorem gather_append (k : Nat) (asked later : List (Plugin × List Fragment)) :
    c.gather k (asked ++ later) = (c.gather k asked).gather (k + asked.length) later := by
  rw [gather, List.zipIdx_append, List.foldl_append]
  rfl

theorem inOrder_gather (h : InOrder c.sections) (k : Nat)
    (asked : List (Plugin × List Fragment)) : InOrder (c.gather k asked).sections := by
  induction asked generalizing c k with
  | nil => exact h
  | cons a asked ih => exact ih (inOrder_collectAll h k a.2) (k + 1)

/-- The lines of each plugin are added to its own. -/
theorem lines_gather (h : InOrder c.sections) (k : Nat) (asked : List (Plugin × List Fragment))
    (priority : Priority) (j : Nat) :
    (c.gather k asked).lines priority j
      = c.lines priority j ++
        if k ≤ j then ((asked.map (·.2))[j - k]?.getD []).filterMap (·.line? priority) else [] := by
  induction asked generalizing c k with
  | nil => simp [gather]
  | cons a asked ih =>
      have hrest := ih (inOrder_collectAll h k a.2) (k + 1)
      rw [gather_cons, hrest, lines_collectAll h]
      rcases Nat.lt_trichotomy j k with hlt | rfl | hgt
      · have h₁ : ¬ k + 1 ≤ j := by omega
        have h₂ : ¬ k = j := by omega
        have h₃ : ¬ k ≤ j := by omega
        simp [h₁, h₂, h₃]
      · have h₁ : ¬ j + 1 ≤ j := by omega
        simp [h₁]
      · have h₁ : k + 1 ≤ j := by omega
        have h₂ : ¬ k = j := by omega
        have h₃ : k ≤ j := by omega
        have h₄ : j - k = (j - (k + 1)) + 1 := by omega
        simp [h₁, h₂, h₃, h₄]

theorem imports_gather (k : Nat) (asked : List (Plugin × List Fragment)) :
    (c.gather k asked).imports
      = c.imports ++ (asked.flatMap (·.2)).filterMap (·.import?) := by
  induction asked generalizing c k with
  | nil => simp [gather]
  | cons a asked ih =>
      rw [gather_cons, ih, imports_collectAll]
      simp

theorem declarations_gather (k : Nat) (asked : List (Plugin × List Fragment)) :
    (c.gather k asked).declarations
      = c.declarations ++ (asked.flatMap (·.2)).flatMap (·.declarations) := by
  induction asked generalizing c k with
  | nil => simp [gather]
  | cons a asked ih =>
      rw [gather_cons, ih, declarations_collectAll]
      simp

end Collected

/-! ## One access -/

namespace Inquiry

variable [Script.Reader] {settings : Settings} {access : Access} {text : String}

theorem foldl_take (plugin : Nat) (answer : List Fragment) (q : Inquiry) :
    answer.foldl (take plugin) q
      = { source := q.source
          replacement := q.replacement.or (answer.findSome? Fragment.replacement?)
          collected := q.collected.collectAll plugin answer } := by
  induction answer generalizing q with
  | nil => simp [Collected.collectAll]
  | cons f answer ih =>
      rw [List.foldl_cons, ih, Collected.collectAll_cons]
      cases f with
      | code _ _ | hoist _ _ | property _ _ _ =>
          simp [take, Collected.collect, List.findSome?_cons, Fragment.replacement?]
      | replacement content =>
          simp [take, Collected.collect, List.findSome?_cons, Fragment.replacement?]

/-- What is known of an access after some plugins were asked and answered. -/
def after (registered : Option Provenance) (c : Collected)
    (asked : List (Plugin × List Fragment)) : Inquiry where
  source := seenSource registered asked
  replacement := firstReplacement? asked
  collected := c.gather 0 asked

theorem after_nil (registered : Option Provenance) (c : Collected) :
    after registered c [] = { source := registered, collected := c } := by
  cases registered <;> rfl

/-- Asks one more plugin. -/
theorem ask_after (registered : Option Provenance) (c : Collected)
    (asked : List (Plugin × List Fragment)) (plugin : Plugin) :
    (after registered c asked).ask settings access text (plugin, asked.length)
      = after registered c (asked ++ [(plugin, plugin.visit settings
          ⟨access.name, access.use, seenSource registered asked, text⟩)]) := by
  let answer := plugin.visit settings ⟨access.name, access.use, seenSource registered asked, text⟩
  have hclaims : ((firstReplacement? asked).isNone &&
      ((firstReplacement? asked).or (answer.findSome? Fragment.replacement?)).isSome)
        = ((firstReplacement? asked).isNone && replaces answer) := by
    cases firstReplacement? asked with
    | some content => rfl
    | none =>
        rw [Option.none_or, List.isSome_findSome?]
        rfl
  have hlast : firstReplacement? [(plugin, answer)] = answer.findSome? Fragment.replacement? := by
    simp [firstReplacement?]
  simp only [ask, after, foldl_take]
  rw [hclaims, seenSource_append, firstReplacement?_append, hlast, Collected.gather_append,
    Nat.zero_add, Collected.gather_cons]
  rfl

/-- A plugin without an answer changes nothing. -/
theorem foldl_ask_silent {q : Inquiry} {plugins : List (Plugin × Nat)}
    (h : ∀ p ∈ plugins, p.1.visit settings ⟨access.name, access.use, q.source, text⟩ = []) :
    plugins.foldl (ask settings access text) q = q := by
  induction plugins with
  | nil => rfl
  | cons p plugins ih =>
      have hask : q.ask settings access text p = q := by
        unfold ask
        rw [h p (List.mem_cons_self ..)]
        obtain ⟨source, replacement, collected⟩ := q
        cases replacement <;> rfl
      rw [List.foldl_cons, hask]
      exact ih fun p hp => h p (List.mem_cons_of_mem _ hp)

/-- Where one plugin replaces an access that nobody registered, and no other has
an answer to what it is told, the answer is all that counts. -/
theorem foldl_ask_claimed {c : Collected} {front back : List Plugin} {plugin : Plugin}
    {answer : List Fragment}
    (hfront : ∀ p ∈ front, p.visit settings ⟨access.name, access.use, none, text⟩ = [])
    (hanswer : plugin.visit settings ⟨access.name, access.use, none, text⟩ = answer)
    (hreplaces : replaces answer = true)
    (hback : ∀ p ∈ back, p.visit settings
      ⟨access.name, access.use, some (Provenance.claimed plugin.name), text⟩ = []) :
    (front ++ plugin :: back).zipIdx.foldl (ask settings access text)
        { source := none, collected := c }
      = { source := some (Provenance.claimed plugin.name)
          replacement := answer.findSome? Fragment.replacement?
          collected := c.collectAll front.length answer } := by
  have hsome : (answer.findSome? Fragment.replacement?).isSome = true := by
    rw [List.isSome_findSome?]
    exact hreplaces
  have hask : Inquiry.ask settings access text { source := none, collected := c }
      (plugin, front.length)
        = { source := some (Provenance.claimed plugin.name)
            replacement := answer.findSome? Fragment.replacement?
            collected := c.collectAll front.length answer } := by
    simp only [ask, hanswer, foldl_take, Option.isNone_none, Option.none_or, hsome, Bool.and_self,
      if_true]
  have hbefore : front.zipIdx.foldl (ask settings access text) { source := none, collected := c }
      = { source := none, collected := c } :=
    foldl_ask_silent fun p hp => hfront p.1 (List.fst_mem_of_mem_zipIdx hp)
  rw [List.zipIdx_append, List.foldl_append, hbefore, List.zipIdx_cons, List.foldl_cons,
    Nat.zero_add, hask]
  exact foldl_ask_silent fun p hp => hback p.1 (List.fst_mem_of_mem_zipIdx hp)

/-- Asks all plugins that are left. -/
theorem foldl_ask (settings : Settings) (access : Access) (text : String)
    (registered : Option Provenance) (c : Collected) (plugins : List Plugin)
    (asked : List (Plugin × List Fragment))
    (hasked : Answered settings access text registered asked) :
    ∃ later : List (Plugin × List Fragment), later.map (·.1) = plugins ∧
      Answered settings access text registered (asked ++ later) ∧
      (plugins.zipIdx asked.length).foldl (ask settings access text) (after registered c asked)
        = after registered c (asked ++ later) := by
  induction plugins generalizing asked with
  | nil => exact ⟨[], rfl, by rwa [List.append_nil], by rw [List.append_nil]; rfl⟩
  | cons plugin plugins ih =>
      let answer :=
        plugin.visit settings ⟨access.name, access.use, seenSource registered asked, text⟩
      obtain ⟨later, hplugins, hanswered, hrun⟩ :=
        ih (asked ++ [(plugin, answer)]) (hasked.append plugin)
      have hsplit : asked ++ (plugin, answer) :: later = asked ++ [(plugin, answer)] ++ later := by
        simp
      refine ⟨(plugin, answer) :: later, by rw [List.map_cons, hplugins], ?_, ?_⟩
      · rwa [hsplit]
      · rw [hsplit, ← hrun, List.length_append, List.zipIdx_cons, List.foldl_cons, ask_after]
        rfl

end Inquiry

/-! ## All accesses -/

section

variable [Script.Reader] (script : Script) (registry : Registry) (plugins : List Plugin)
  (settings : Settings)

/-- What resolving an access does, in terms of the answers that the plugins
give. -/
theorem resolve_eq_asked (r : Resolved) (access : Access) :
    ∃ asked : List (Plugin × List Fragment), asked.map (·.1) = plugins ∧
      Answered settings access (script.textAt access.span) (access.name.bind registry.source?)
        asked ∧
      (r.resolve script registry plugins settings access).collected = r.collected.gather 0 asked ∧
      (r.resolve script registry plugins settings access).edits.recorded
        = r.edits.recorded ++
          ((firstReplacement? asked).map fun content => ⟨access.replaced, content⟩).toList := by
  obtain ⟨asked, hplugins, hanswered, hrun⟩ := Inquiry.foldl_ask settings access
    (script.textAt access.span) (access.name.bind registry.source?) r.collected plugins [] .nil
  rw [List.nil_append] at hanswered hrun
  rw [Inquiry.after_nil, List.length_nil] at hrun
  refine ⟨asked, hplugins, hanswered, ?_, ?_⟩
  · simp only [Resolved.resolve, hrun, Inquiry.after]
  · simp only [Resolved.resolve, hrun, Inquiry.after]
    cases firstReplacement? asked with
    | none => simp
    | some content => rfl

theorem inOrder_foldl_resolve (accesses : List Access) (r : Resolved)
    (h : InOrder r.collected.sections) :
    InOrder
      (accesses.foldl (Resolved.resolve script registry plugins settings) r).collected.sections := by
  induction accesses generalizing r with
  | nil => exact h
  | cons access accesses ih =>
      obtain ⟨asked, -, -, hcollected, -⟩ :=
        resolve_eq_asked script registry plugins settings r access
      refine ih _ ?_
      rw [hcollected]
      exact Collected.inOrder_gather h 0 asked

/-- Each plugin is asked once about an access, in the order of the list, and is
told who registered the name or else who replaced the access first. The first
replacement is written; lines, imports and declarations of all plugins are added
to those of the accesses before, in the order of the answers. An access that was
replaced is never seen as unclaimed again. -/
theorem resolve_asks_in_order (visited : List Access) (access : Access) :
    let registered := access.name.bind registry.source?
    let r := visited.foldl (Resolved.resolve script registry plugins settings) {}
    let r' := r.resolve script registry plugins settings access
    ∃ asked : List (Plugin × List Fragment), asked.map (·.1) = plugins ∧
      Answered settings access (script.textAt access.span) registered asked ∧
      r'.edits.recorded = r.edits.recorded ++
        ((firstReplacement? asked).map fun content => ⟨access.replaced, content⟩).toList ∧
      (∀ priority plugin, r'.collected.lines priority plugin = r.collected.lines priority plugin ++
        ((asked.map (·.2))[plugin]?.getD []).filterMap (·.line? priority)) ∧
      r'.collected.imports = r.collected.imports ++ (asked.flatMap (·.2)).filterMap (·.import?) ∧
      r'.collected.declarations
        = r.collected.declarations ++ (asked.flatMap (·.2)).flatMap (·.declarations) ∧
      ∀ before later, asked = before ++ later → ∀ earlier ∈ before, replaces earlier.2 = true →
        (seenSource registered before).isSome = true := by
  intro registered r r'
  have horder : InOrder r.collected.sections :=
    inOrder_foldl_resolve script registry plugins settings visited {} .nil
  obtain ⟨asked, hplugins, hanswered, hcollected, hedits⟩ :=
    resolve_eq_asked script registry plugins settings r access
  refine ⟨asked, hplugins, hanswered, hedits, ?_, ?_, ?_, ?_⟩
  · intro priority plugin
    have hlines := Collected.lines_gather horder 0 asked priority plugin
    rwa [← hcollected, if_pos (Nat.zero_le _), Nat.sub_zero] at hlines
  · have himports := Collected.imports_gather (c := r.collected) 0 asked
    rwa [← hcollected] at himports
  · have hdeclarations := Collected.declarations_gather (c := r.collected) 0 asked
    rwa [← hcollected] at hdeclarations
  · intro before later _ earlier hmem hreplaces
    exact seenSource_isSome hmem hreplaces

end

end Recompose
