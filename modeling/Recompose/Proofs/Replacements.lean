import Recompose.Plugin.All
import Recompose.Proofs.Inquiry

/-!
# What the built-in plugins write for an access

Without further plugins, the text that is written for an access depends on its
name, on how it is used and on the tag under which the name is registered:
`replacementFor?`. Every plugin answers with the text that it wants and hoists
what the text refers to, `Replacement.support`.
-/

namespace Recompose

/-- What is written for an access. -/
inductive Replacement where
  | bare (name : String)
  /-- What a ref under the name holds. -/
  | value (name : String)
  | prop (name : String)
  | unref (name : String)
  | emit
  | router
  | route
  /-- A member of the proxy of the instance, or the proxy itself. -/
  | fallback (name : Option String)
deriving DecidableEq, Repr

namespace Replacement

def text : Replacement → String
  | bare name => name
  | value name => name ++ ".value"
  | prop name => "props." ++ name
  | unref name => "unref(" ++ name ++ ")"
  | emit => "emit"
  | router => "router"
  | route => "route"
  | fallback (some name) => memberAccess "instance.proxy" name
  | fallback none => "instance.proxy"

/-- What is hoisted together with a replacement. An `emits` option declares
`emit` itself, and a setup function is given it. -/
def support (settings : Settings) (registered : Option Provenance) : Replacement → List Fragment
  | bare _ | value _ | prop _ => []
  | unref _ => [.importing "vue" "unref"]
  | emit =>
    if registered ≠ some Emits.tag ∧ settings.scriptSetup then
      [.hoisting (Emits.fallback settings)]
    else []
  | router => [.importing "vue-router" "useRouter", .hoisting "const router = useRouter()"]
  | route => [.importing "vue-router" "useRoute", .hoisting "const route = useRoute()"]
  | fallback _ =>
    [.importing "vue" "getCurrentInstance", .hoisting "const instance = getCurrentInstance()"]

end Replacement

/-- A tag, and what is written for names that are registered under it. -/
abbrev TagRule := Provenance × (AccessUse → String → Replacement)

def propsRules : List TagRule :=
  [(Props.destructuredTag, fun _ => .bare), (Props.tag, fun _ => .prop)]

/-- A name that a setup function returns may be bound to a ref or not. -/
def otherRules : List TagRule :=
  [(Inject.tag, fun _ => .bare),
   (Setup.tag, fun use name => if use.isWrite then .value name else .unref name),
   (Data.tag, fun _ => .value), (Data.reactivityTag, fun _ => .bare),
   (Computed.tag, fun _ => .value), (Computed.reactivityTag, fun _ => .bare),
   (Store.stateTag, fun _ => .value), (Store.stateReactivityTag, fun _ => .bare),
   (Store.actionsTag, fun _ => .bare), (Methods.tag, fun _ => .bare)]

def byTag? (rules : List TagRule) (use : AccessUse) (name : String) (tag : Provenance) :
    Option Replacement :=
  (rules.lookup tag).map fun rule => rule use name

/-- What is written for an access to a name, or with a key that is not known.
An event is emitted before any plugin but that of the props is asked. -/
def replacementFor? (use : AccessUse) (registered : Option Provenance) :
    Option String → Option Replacement
  | none => some (.fallback none)
  | some name =>
    match registered with
    | some tag =>
      (byTag? propsRules use name tag).or
        (if name = "$emit" then some .emit else byTag? otherRules use name tag)
    | none =>
      if name = "$emit" then some .emit
      else if name = "$router" then some .router
      else if name = "$route" then some .route
      else some (.fallback (some name))

/-! ## Answers -/

section

variable (settings : Settings) (registered : Option Provenance)

/-- The answer of a plugin that wants a replacement. -/
def answerWith : Option Replacement → List Fragment
  | some r => r.support settings registered ++ [.replacement r.text]
  | none => []

/-- The fragments of some answers say what is written, and support it. -/
structure Gives (replacement : Option Replacement) (fragments : List Fragment) : Prop where
  text : fragments.findSome? Fragment.replacement? = replacement.map Replacement.text
  support : ∀ r ∈ replacement, ∀ f ∈ r.support settings registered, f ∈ fragments

variable {settings registered}

/-- Nothing is written for what is hoisted. -/
theorem replacement?_of_support {r : Replacement} {f : Fragment}
    (h : f ∈ r.support settings registered) : f.replacement? = none := by
  cases r with
  | bare _ | value _ | prop _ => cases h
  | unref _ =>
      rw [List.mem_singleton.mp h]
      rfl
  | emit =>
      simp only [Replacement.support] at h
      split at h
      · rw [List.mem_singleton.mp h]
        rfl
      · cases h
  | router | route | fallback _ =>
      rcases List.mem_cons.mp h with rfl | h
      · rfl
      · rw [List.mem_singleton.mp h]
        rfl

theorem gives_answerWith (replacement : Option Replacement) :
    Gives settings registered replacement (answerWith settings registered replacement) := by
  cases replacement with
  | none => exact ⟨rfl, nofun⟩
  | some r =>
      refine ⟨?_, ?_⟩
      · have hsupport : (r.support settings registered).findSome? Fragment.replacement? = none :=
          List.findSome?_eq_none_iff.mpr fun f hf => replacement?_of_support hf
        rw [answerWith, List.findSome?_append, hsupport]
        rfl
      · rintro _ ⟨⟩ f hf
        exact List.mem_append_left _ hf

/-- What is given first is written. -/
theorem Gives.append {o o' : Option Replacement} {fs fs' : List Fragment}
    (h : Gives settings registered o fs) (h' : Gives settings registered o' fs') :
    Gives settings registered (o.or o') (fs ++ fs') := by
  refine ⟨?_, ?_⟩
  · rw [List.findSome?_append, h.text, h'.text]
    cases o <;> rfl
  · intro r hr f hf
    cases o with
    | some r' => exact List.mem_append_left _ (h.support r hr f hf)
    | none => exact List.mem_append_right _ (h'.support r hr f hf)

/-- Of rules with different tags, one answers at most. -/
theorem flatMap_rules (rules : List TagRule) (hnodup : (rules.map (·.1)).Nodup) (use : AccessUse)
    (name : String) (tag : Provenance) :
    (rules.flatMap fun rule =>
        answerWith settings registered (if tag = rule.1 then some (rule.2 use name) else none))
      = answerWith settings registered (byTag? rules use name tag) := by
  induction rules with
  | nil => rfl
  | cons rule rules ih =>
      obtain ⟨hnew, hrest⟩ := List.nodup_cons.mp hnodup
      rw [List.flatMap_cons, ih hrest]
      by_cases htag : tag = rule.1
      · have hnone : rules.lookup tag = none := by
          rw [List.lookup_eq_none_iff]
          intro other hother
          have hmem : other.1 ∈ rules.map (·.1) := List.mem_map_of_mem hother
          have hne : tag ≠ other.1 := by
            intro heq
            rw [← heq, htag] at hmem
            exact hnew hmem
          simpa using hne
        have hfound : (rule :: rules).lookup tag = some rule.2 := by
          rw [htag]
          exact List.lookup_cons_self
        rw [byTag?, byTag?, hnone, hfound, if_pos htag]
        simp [answerWith]
      · have hnext : (rule :: rules).lookup tag = rules.lookup tag := by
          rw [List.lookup_cons, beq_false_of_ne htag]
        rw [byTag?, byTag?, hnext, if_neg htag]
        rfl

end

/-! ## All answers to an access -/

/-- The plugins of options without further ones. -/
def ownPlugins : List Plugin := builtinPlugins ++ [Instance.plugin]

theorem allPlugins_of_no_plugins {options : Options} (h : options.plugins = []) :
    options.allPlugins = ownPlugins := by
  have hat : ∀ order, options.pluginsAt order = [] := by
    intro order
    rw [Options.pluginsAt, h]
    rfl
  rw [Options.allPlugins, hat, hat, List.nil_append, List.append_nil]
  rfl

section

variable (settings : Settings) (name : String) (use : AccessUse) (text : String)

theorem isFrom_registered (name : Option String) (tag t : Provenance) :
    Visit.isFrom ⟨name, use, some tag, text⟩ t = decide (tag = t) := by
  rw [Visit.isFrom, Option.some_beq_some]
  rfl

theorem visit_emits_registered (tag : Provenance) :
    Emits.visit settings ⟨some name, use, some tag, text⟩
      = answerWith settings (some tag) (if name = "$emit" then some .emit else none) := by
  simp only [Emits.visit, isFrom_registered]
  by_cases hname : name = "$emit" <;> by_cases htag : tag = Emits.tag <;>
    cases hsetup : settings.scriptSetup <;>
      simp [hname, htag, hsetup, answerWith, Replacement.support, Replacement.text]

theorem visit_setup_registered (tag : Provenance) :
    Setup.visit settings ⟨some name, use, some tag, text⟩
      = answerWith settings (some tag)
          (if tag = Setup.tag then some (if use.isWrite then .value name else .unref name)
            else none) := by
  simp only [Setup.visit, isFrom_registered]
  by_cases htag : tag = Setup.tag <;> cases use.isWrite <;>
    simp [htag, answerWith, Replacement.support, Replacement.text]

theorem visit_props_registered (tag : Provenance) :
    Props.visit settings ⟨some name, use, some tag, text⟩
      = answerWith settings (some tag) (byTag? propsRules use name tag) := by
  rw [← flatMap_rules propsRules (by decide)]
  simp only [Props.visit, isFrom_registered, decide_eq_true_eq, propsRules, List.flatMap_cons,
    List.flatMap_nil]
  by_cases hdestructured : tag = Props.destructuredTag
  · simp [hdestructured, Props.tag, Props.destructuredTag, answerWith, Replacement.support,
      Replacement.text]
  · by_cases htag : tag = Props.tag
    · simp [htag, Props.tag, Props.destructuredTag, answerWith, Replacement.support,
        Replacement.text]
    · simp [hdestructured, htag, answerWith]

/-- A plugin that writes a registered name without more answers by a rule. -/
theorem replaceFrom_eq_answerWith (tag t : Provenance) {f : String → String} {r : Replacement}
    (htext : r.text = f name) (hsupport : r.support settings (some tag) = []) :
    Visit.replaceFrom ⟨some name, use, some tag, text⟩ t f
      = answerWith settings (some tag) (if tag = t then some r else none) := by
  simp only [Visit.replaceFrom, isFrom_registered, decide_eq_true_eq]
  split
  · rw [answerWith, htext, hsupport]
    rfl
  · rfl

/-- The answers about a registered name, plugin by plugin. -/
theorem flatMap_visit_registered (tag : Provenance) :
    ownPlugins.flatMap (·.visit settings ⟨some name, use, some tag, text⟩)
      = answerWith settings (some tag) (byTag? propsRules use name tag) ++
        (answerWith settings (some tag) (if name = "$emit" then some .emit else none) ++
          answerWith settings (some tag) (byTag? otherRules use name tag)) := by
  rw [← flatMap_rules otherRules (by decide)]
  have hbare : ∀ t, Visit.replaceFrom ⟨some name, use, some tag, text⟩ t id
      = answerWith settings (some tag) (if tag = t then some (.bare name) else none) :=
    fun t => replaceFrom_eq_answerWith settings name use text tag t rfl rfl
  have hvalue : ∀ t, Visit.replaceFrom ⟨some name, use, some tag, text⟩ t (· ++ ".value")
      = answerWith settings (some tag) (if tag = t then some (.value name) else none) :=
    fun t => replaceFrom_eq_answerWith settings name use text tag t rfl rfl
  simp only [ownPlugins, builtinPlugins, otherRules, List.cons_append, List.nil_append,
    List.flatMap_cons, List.flatMap_nil, Props.plugin, Emits.plugin, Inject.plugin,
    Registrations.components, Registrations.directives, Setup.plugin, Data.plugin, Computed.plugin,
    Store.plugin, Methods.plugin, Watch.plugin, Lifecycle.plugin, Router.plugin, Provide.plugin,
    Expose.plugin, Instance.plugin, visit_props_registered, visit_emits_registered,
    visit_setup_registered, Data.visit, Computed.visit, Store.visit, Router.visit, Instance.visit,
    hbare, hvalue, Option.isSome_some, if_true, List.append_nil, List.append_assoc]

theorem gives_registered (tag : Provenance) :
    Gives settings (some tag) (replacementFor? use (some tag) (some name))
      (ownPlugins.flatMap (·.visit settings ⟨some name, use, some tag, text⟩)) := by
  have hemit : ∀ o : Option Replacement, (if name = "$emit" then some .emit else none).or o
      = if name = "$emit" then some .emit else o := by
    intro o
    split <;> rfl
  rw [flatMap_visit_registered, replacementFor?, ← hemit]
  exact (gives_answerWith _).append ((gives_answerWith _).append (gives_answerWith _))

/-- The plugins between those of the events and of the routes. -/
def statePlugins : List Plugin :=
  [Inject.plugin, Registrations.components, Registrations.directives, Setup.plugin, Data.plugin,
   Computed.plugin, Store.plugin, Methods.plugin, Watch.plugin, Lifecycle.plugin]

/-- Plugins that have an answer about registered names only, if at all. -/
def tagPlugins : List Plugin :=
  Props.plugin :: (statePlugins ++ [Provide.plugin, Expose.plugin])

theorem isFrom_unregistered (name : Option String) (t : Provenance) :
    Visit.isFrom ⟨name, use, none, text⟩ t = false := rfl

theorem visit_unregistered (name : Option String) :
    ∀ p ∈ tagPlugins, p.visit settings ⟨name, use, none, text⟩ = [] := by
  have hreplace : ∀ t f, Visit.replaceFrom ⟨name, use, none, text⟩ t f = [] := by
    intro t f
    cases name <;> rfl
  have hprops : Props.visit settings ⟨name, use, none, text⟩ = [] := by
    cases name <;> rfl
  have hsetup : Setup.visit settings ⟨name, use, none, text⟩ = [] := by
    cases name <;> rfl
  simp only [tagPlugins, statePlugins, List.cons_append, List.nil_append, List.forall_mem_cons,
    List.not_mem_nil, false_implies, implies_true,
    Props.plugin, Inject.plugin, Registrations.components, Registrations.directives,
    Setup.plugin, Data.plugin, Computed.plugin, Store.plugin, Methods.plugin, Watch.plugin,
    Lifecycle.plugin, Provide.plugin, Expose.plugin, Data.visit, Computed.visit, Store.visit,
    hreplace, hprops, hsetup, List.append_nil, and_self]

/-- Nobody but the plugin of the events has an answer about a name under another
tag. -/
theorem visit_other_tag {tag : Provenance} (htag : tag ∉ (propsRules ++ otherRules).map (·.1)) :
    ∀ p ∈ Router.plugin :: Instance.plugin :: tagPlugins,
      p.visit settings ⟨some name, use, some tag, text⟩ = [] := by
  simp only [propsRules, otherRules, List.cons_append, List.nil_append, List.map_cons, List.map_nil,
    List.mem_cons, List.not_mem_nil, or_false, not_or] at htag
  obtain ⟨hdestructured, hprops, hinject, hsetup, hdata, hdata', hcomputed, hcomputed', hstate,
    hstate', hactions, hmethods⟩ := htag
  simp only [tagPlugins, statePlugins, List.cons_append, List.nil_append, List.forall_mem_cons,
    List.not_mem_nil, false_implies, implies_true,
    Props.plugin, Inject.plugin, Registrations.components, Registrations.directives, Setup.plugin,
    Data.plugin, Computed.plugin, Store.plugin, Methods.plugin, Watch.plugin, Lifecycle.plugin,
    Provide.plugin, Expose.plugin, Router.plugin, Instance.plugin, Props.visit, Setup.visit,
    Data.visit, Computed.visit, Store.visit, Router.visit, Instance.visit, Visit.replaceFrom,
    isFrom_registered, hdestructured, hprops, hinject, hsetup, hdata, hdata', hcomputed, hcomputed',
    hstate, hstate', hactions, hmethods, decide_false, Bool.not_false, Bool.false_eq_true, if_true,
    if_false, Option.isSome_some, List.append_nil, and_self]

theorem visit_emits_other {name : Option String} (hname : name ≠ some "$emit")
    (source : Option Provenance) : Emits.visit settings ⟨name, use, source, text⟩ = [] := by
  simp only [Emits.visit, bne_iff_ne, ne_eq, hname, not_false_eq_true, if_true]

theorem visit_router_other {name : Option String} (hrouter : name ≠ some "$router")
    (hroute : name ≠ some "$route") (source : Option Provenance) :
    Router.visit settings ⟨name, use, source, text⟩ = [] := by
  unfold Router.visit
  split
  · rfl
  split
  · exact absurd ‹_› hrouter
  · exact absurd ‹_› hroute
  · rfl

end

/-! ## Resolving -/

section

variable [Script.Reader] (script : Script) (registry : Registry) (settings : Settings)

/-- What resolving an access does, where no further plugins are asked. -/
structure Resolves (r : Resolved) (access : Access) (replacement : Option Replacement)
    (fragments : List Fragment) (r' : Resolved) : Prop where
  gives : Gives settings (access.name.bind registry.source?) replacement fragments
  edits : r'.edits.recorded = r.edits.recorded ++
    (replacement.map fun replacement => ⟨access.replaced, replacement.text⟩).toList
  imports : r'.collected.imports = r.collected.imports ++ fragments.filterMap (·.import?)
  declarations :
    r'.collected.declarations = r.collected.declarations ++ fragments.flatMap (·.declarations)

variable {script registry settings}

theorem resolves_registered {access : Access} {name : String} {tag : Provenance}
    (hname : access.name = some name) (htag : registry.source? name = some tag) (r : Resolved) :
    ∃ fragments, Resolves registry settings r access
      (replacementFor? access.use (some tag) (some name)) fragments
      (r.resolve script registry ownPlugins settings access) := by
  have hregistered : access.name.bind registry.source? = some tag := by
    rw [hname]
    exact htag
  obtain ⟨asked, hplugins, hanswered, hcollected, hedits⟩ :=
    resolve_eq_asked script registry ownPlugins settings r access
  have hgives := gives_registered settings name access.use (script.textAt access.span) tag
  rw [hregistered] at hanswered
  have hflat := hanswered.flatMap_registered
  rw [hplugins, hname] at hflat
  rw [← hflat] at hgives
  refine ⟨asked.flatMap (·.2), ?_, ?_, ?_, ?_⟩
  · rwa [hregistered]
  · rw [hedits, firstReplacement?, hgives.text, Option.map_map]
    rfl
  · rw [hcollected, Collected.imports_gather]
  · rw [hcollected, Collected.declarations_gather]

/-- One plugin claims an access that nobody registered. -/
theorem resolves_claimed {access : Access} {replacement : Replacement} {plugin : Plugin}
    {front back : List Plugin} (hregistered : access.name.bind registry.source? = none)
    (hplugins : ownPlugins = front ++ plugin :: back)
    (hfront : ∀ p ∈ front, p.visit settings
      ⟨access.name, access.use, none, script.textAt access.span⟩ = [])
    (hanswer : plugin.visit settings ⟨access.name, access.use, none, script.textAt access.span⟩
      = answerWith settings none (some replacement))
    (hback : ∀ p ∈ back, p.visit settings ⟨access.name, access.use,
      some (Provenance.claimed plugin.name), script.textAt access.span⟩ = []) (r : Resolved) :
    ∃ fragments, Resolves registry settings r access (some replacement) fragments
      (r.resolve script registry ownPlugins settings access) := by
  have hgives : Gives settings none (some replacement)
      (answerWith settings none (some replacement)) := gives_answerWith _
  have hreplaces : replaces (answerWith settings none (some replacement)) = true := by
    simp [replaces, answerWith, Fragment.replacement?]
  have hrun := Inquiry.foldl_ask_claimed (c := r.collected) hfront hanswer hreplaces hback
  rw [← hplugins] at hrun
  refine ⟨answerWith settings none (some replacement), ?_, ?_, ?_, ?_⟩
  · rwa [hregistered]
  · simp only [Resolved.resolve, hregistered, hrun, hgives.text, Option.map_some]
    rfl
  · simp only [Resolved.resolve, hregistered, hrun, Collected.imports_collectAll]
  · simp only [Resolved.resolve, hregistered, hrun, Collected.declarations_collectAll]

variable {access : Access}

/-- The plugin of the events claims an access. -/
theorem resolves_emit (hregistered : access.name.bind registry.source? = none)
    (hname : access.name = some "$emit") (r : Resolved) :
    ∃ fragments, Resolves registry settings r access (some .emit) fragments
      (r.resolve script registry ownPlugins settings access) := by
  have hplugins : ownPlugins = [Props.plugin] ++ Emits.plugin ::
      (statePlugins ++ [Router.plugin, Provide.plugin, Expose.plugin, Instance.plugin]) := rfl
  refine resolves_claimed hregistered hplugins ?_ ?_ ?_ r
  · intro p hp
    rw [List.mem_singleton.mp hp]
    exact visit_unregistered settings access.use _ access.name _ (List.mem_cons_self ..)
  · rw [hname]
    cases hsetup : settings.scriptSetup <;>
      simp [Emits.plugin, Emits.visit, isFrom_unregistered, hsetup, answerWith, Replacement.support,
        Replacement.text]
  · rw [hname]
    intro p hp
    have htag : Provenance.claimed "emits" ∉ (propsRules ++ otherRules).map (·.1) := by decide
    refine visit_other_tag settings "$emit" access.use _ htag p ?_
    simp only [tagPlugins, List.mem_append, List.mem_cons] at hp ⊢
    grind

/-- The plugin of the routes claims an access. -/
theorem resolves_route {name : String} {replacement : Replacement}
    (hregistered : access.name.bind registry.source? = none) (hname : access.name = some name)
    (hroute : name = "$router" ∧ replacement = .router ∨ name = "$route" ∧ replacement = .route)
    (r : Resolved) :
    ∃ fragments, Resolves registry settings r access (some replacement) fragments
      (r.resolve script registry ownPlugins settings access) := by
  have hplugins : ownPlugins = (Props.plugin :: Emits.plugin :: statePlugins) ++ Router.plugin ::
      [Provide.plugin, Expose.plugin, Instance.plugin] := rfl
  refine resolves_claimed hregistered hplugins ?_ ?_ ?_ r
  · intro p hp
    by_cases hp' : p ∈ tagPlugins
    · exact visit_unregistered settings access.use _ access.name p hp'
    · have hemits : p = Emits.plugin := by
        simp only [tagPlugins, List.mem_append, List.mem_cons] at hp hp'
        grind
      rw [hemits, hname]
      refine visit_emits_other settings access.use _ ?_ none
      rcases hroute with ⟨rfl, -⟩ | ⟨rfl, -⟩ <;> decide
  · rw [hname]
    rcases hroute with ⟨rfl, rfl⟩ | ⟨rfl, rfl⟩ <;> rfl
  · rw [hname]
    intro p hp
    have htag : Provenance.claimed "vue-router" ∉ (propsRules ++ otherRules).map (·.1) := by decide
    refine visit_other_tag settings name access.use _ htag p ?_
    simp only [tagPlugins, List.mem_append, List.mem_cons] at hp ⊢
    grind

/-- Nobody else claims an access. -/
theorem resolves_fallback (hregistered : access.name.bind registry.source? = none)
    (hemit : access.name ≠ some "$emit") (hrouter : access.name ≠ some "$router")
    (hroute : access.name ≠ some "$route") (r : Resolved) :
    ∃ fragments, Resolves registry settings r access (some (.fallback access.name)) fragments
      (r.resolve script registry ownPlugins settings access) := by
  have hplugins : ownPlugins = ([Props.plugin, Emits.plugin] ++ statePlugins ++
      [Router.plugin, Provide.plugin, Expose.plugin]) ++ Instance.plugin :: [] := rfl
  refine resolves_claimed hregistered hplugins ?_ ?_ nofun r
  · intro p hp
    by_cases hp' : p ∈ tagPlugins
    · exact visit_unregistered settings access.use _ access.name p hp'
    · have hother : p = Emits.plugin ∨ p = Router.plugin := by
        simp only [tagPlugins, List.mem_append, List.mem_cons] at hp hp'
        grind
      rcases hother with rfl | rfl
      · exact visit_emits_other settings access.use _ hemit none
      · exact visit_router_other settings access.use _ hrouter hroute none
  · cases access.name <;> rfl

/-- What is written for an access, and what is hoisted for it. -/
theorem resolves (script : Script) (registry : Registry) (settings : Settings) (access : Access)
    (r : Resolved) :
    ∃ fragments, Resolves registry settings r access
      (replacementFor? access.use (access.name.bind registry.source?) access.name) fragments
      (r.resolve script registry ownPlugins settings access) := by
  cases hname : access.name with
  | none =>
      have hregistered : access.name.bind registry.source? = none := by
        rw [hname]
        rfl
      have hne : ∀ name : String, access.name ≠ some name := by
        intro name
        rw [hname]
        exact nofun
      have hfallback : ∃ fragments, Resolves registry settings r access
          (some (.fallback access.name)) fragments
          (r.resolve script registry ownPlugins settings access) :=
        resolves_fallback hregistered (hne _) (hne _) (hne _) r
      rwa [hname] at hfallback
  | some name =>
      cases hsource : registry.source? name with
      | some tag =>
          rw [Option.bind_some, hsource]
          exact resolves_registered hname hsource r
      | none =>
          have hregistered : access.name.bind registry.source? = none := by
            rw [hname]
            exact hsource
          rw [Option.bind_some, hsource, replacementFor?]
          by_cases hemit : name = "$emit"
          · rw [if_pos hemit]
            exact resolves_emit hregistered (hemit ▸ hname) r
          rw [if_neg hemit]
          by_cases hrouter : name = "$router"
          · rw [if_pos hrouter]
            exact resolves_route hregistered hname (.inl ⟨hrouter, rfl⟩) r
          rw [if_neg hrouter]
          by_cases hroute : name = "$route"
          · rw [if_pos hroute]
            exact resolves_route hregistered hname (.inr ⟨hroute, rfl⟩) r
          rw [if_neg hroute, ← hname]
          have hne : ∀ other : String, name ≠ other → access.name ≠ some other := by
            intro other h heq
            rw [hname] at heq
            exact h (Option.some.inj heq)
          exact resolves_fallback hregistered (hne _ hemit) (hne _ hrouter) (hne _ hroute) r

/-! ## All accesses -/

/-- The edit that is recorded for an access. -/
def editFor? (registry : Registry) (access : Access) : Option Edit :=
  (replacementFor? access.use (access.name.bind registry.source?) access.name).map
    fun replacement => ⟨access.replaced, replacement.text⟩

theorem recorded_foldl_resolve (accesses : List Access) (r : Resolved) :
    (accesses.foldl (Resolved.resolve script registry ownPlugins settings) r).edits.recorded
      = r.edits.recorded ++ accesses.filterMap (editFor? registry) := by
  induction accesses generalizing r with
  | nil => simp
  | cons access accesses ih =>
      obtain ⟨fragments, h⟩ := resolves script registry settings access r
      rw [List.foldl_cons, ih, h.edits, List.append_assoc, ← editFor?]
      cases hedit : editFor? registry access <;> simp [hedit]

/-- Exactly one edit is recorded for every access that is replaced at all. -/
theorem recorded_resolveMembers (excluded : List Span) :
    (resolveMembers script registry ownPlugins settings excluded).edits.recorded
      = (script.accessesOutside excluded).filterMap (editFor? registry) := by
  rw [resolveMembers, recorded_foldl_resolve]
  rfl

/-- What a fragment asks for was collected. -/
structure Collected.Has (c : Collected) (f : Fragment) : Prop where
  import_mem : ∀ request ∈ f.import?, request ∈ c.imports
  declarations_subset : f.declarations ⊆ c.declarations

/-- Nothing that was collected is lost. -/
theorem has_foldl_resolve {f : Fragment} (accesses : List Access) (r : Resolved)
    (h : r.collected.Has f) :
    (accesses.foldl (Resolved.resolve script registry ownPlugins settings) r).collected.Has f := by
  induction accesses generalizing r with
  | nil => exact h
  | cons access accesses ih =>
      obtain ⟨fragments, hresolves⟩ := resolves script registry settings access r
      refine ih _ ⟨?_, ?_⟩
      · intro request hrequest
        rw [hresolves.imports]
        exact List.mem_append_left _ (h.import_mem request hrequest)
      · intro request hrequest
        rw [hresolves.declarations]
        exact List.mem_append_left _ (h.declarations_subset hrequest)

/-- Whatever is written for an access, its support was collected. -/
theorem has_support (accesses : List Access) (r : Resolved) {access : Access}
    (hmem : access ∈ accesses) {replacement : Replacement}
    (hreplacement : replacementFor? access.use (access.name.bind registry.source?) access.name
      = some replacement) :
    ∀ f ∈ replacement.support settings (access.name.bind registry.source?),
      (accesses.foldl (Resolved.resolve script registry ownPlugins settings)
        r).collected.Has f := by
  intro f hf
  induction accesses generalizing r with
  | nil => cases hmem
  | cons first accesses ih =>
      rcases List.mem_cons.mp hmem with rfl | hmem
      · obtain ⟨fragments, hresolves⟩ := resolves script registry settings access r
        have hfragment : f ∈ fragments := hresolves.gives.support replacement hreplacement f hf
        refine has_foldl_resolve accesses _ ⟨?_, ?_⟩
        · intro request hrequest
          rw [hresolves.imports]
          exact List.mem_append_right _ (List.mem_filterMap.mpr ⟨f, hfragment, hrequest⟩)
        · intro request hrequest
          rw [hresolves.declarations]
          exact List.mem_append_right _ (List.mem_flatMap.mpr ⟨f, hfragment, hrequest⟩)
      · exact ih _ hmem

end

end Recompose
