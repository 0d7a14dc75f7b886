import Mathlib.Tactic.SplitIfs
import Recompose.Proofs.RegisteredTags
import Recompose.Proofs.Sites

/-!
# Every access is resolved

Without further plugins, a name that the first pass registered is answered in
the second, and any other access is claimed by the plugin of the events, of the
routes or of the instance. So one edit is recorded at each site, and what its
text refers to is bound by what was collected.
-/

namespace Recompose

/-! ## What replacements refer to -/

namespace Collected

/-- A name is imported from a module. -/
def Imports (c : Collected) (source name : String) : Prop :=
  ∃ request ∈ c.imports, request.source = source ∧ (name, name) ∈ request.named

/-- A name is declared with an initial value. -/
def Declares (c : Collected) (name init : String) : Prop :=
  ∃ request ∈ c.declarations, request.binding = .name name ∧ request.init = init

variable {c : Collected} {f : Fragment}

theorem Has.imports (h : c.Has f) {source name : String}
    (himport : f.import? = some ⟨source, [(name, name)], none, none⟩) : c.Imports source name :=
  ⟨_, h.import_mem _ himport, rfl, List.mem_singleton_self _⟩

theorem Has.declares (h : c.Has f) {name init : String}
    (hdeclarations : f.declarations = [⟨.viaConst, init, .name name⟩]) : c.Declares name init := by
  have hmem : (⟨.viaConst, init, .name name⟩ : DeclarationRequest) ∈ f.declarations := by
    rw [hdeclarations]
    exact List.mem_singleton_self _
  exact ⟨_, h.declarations_subset hmem, rfl, rfl⟩

end Collected

namespace Replacement

/-- The call that declares events of any name. -/
def anyEmits (settings : Settings) : String :=
  if settings.typescript then "defineEmits<(event: string, ...args: unknown[]) => void>()"
  else "defineEmits()"

/-- The helpers that a replacement refers to are bound. The `emits` option and
setup functions bind `emit`. -/
def IsBound (settings : Settings) (registered : Option Provenance) (c : Collected) :
    Replacement → Prop
  | bare _ | value _ | prop _ => True
  | unref _ => c.Imports "vue" "unref"
  | emit => settings.scriptSetup = true → registered ≠ some Emits.tag →
      c.Declares "emit" (anyEmits settings)
  | router => c.Imports "vue-router" "useRouter" ∧ c.Declares "router" "useRouter()"
  | route => c.Imports "vue-router" "useRoute" ∧ c.Declares "route" "useRoute()"
  | fallback _ =>
      c.Imports "vue" "getCurrentInstance" ∧ c.Declares "instance" "getCurrentInstance()"

theorem declarations_fallback (settings : Settings) :
    (Fragment.hoisting (Emits.fallback settings)).declarations
      = [⟨.viaConst, anyEmits settings, .name "emit"⟩] := by
  unfold Emits.fallback anyEmits
  cases settings.typescript <;> decide +kernel

/-- The support of a replacement binds what it refers to. -/
theorem isBound_of_support {settings : Settings} {registered : Option Provenance} {c : Collected}
    {r : Replacement} (h : ∀ f ∈ r.support settings registered, c.Has f) :
    r.IsBound settings registered c := by
  cases r with
  | bare _ | value _ | prop _ => trivial
  | unref _ => exact (h _ (List.mem_singleton_self _)).imports (by decide +kernel)
  | emit =>
      intro hsetup hregistered
      have hsupport : Fragment.hoisting (Emits.fallback settings)
          ∈ support settings registered emit := by
        rw [support, if_pos ⟨hregistered, hsetup⟩]
        exact List.mem_singleton_self _
      exact (h _ hsupport).declares (declarations_fallback settings)
  | router | route | fallback _ =>
      obtain ⟨himport, hrest⟩ := List.forall_mem_cons.mp h
      have hdeclare := hrest _ (List.mem_singleton_self _)
      exact ⟨himport.imports (by decide +kernel), hdeclare.declares (by decide +kernel)⟩

end Replacement

/-! ## Which replacement is chosen -/

/-- What is written for registered names. -/
def namedForms : List (String → Replacement) := [.bare, .value, .prop, .unref]

/-- An access with a key that is not known, or to a name that nobody registered and
that no plugin knows. -/
def FallsBack (registered : Option Provenance) (name : Option String) : Prop :=
  name = none ∨ ∃ n, name = some n ∧ registered = none ∧ n ∉ ["$emit", "$router", "$route"]

theorem exists_form_of_rule {rule : TagRule} (h : rule ∈ propsRules ++ otherRules)
    (use : AccessUse) (name : String) : ∃ form ∈ namedForms, rule.2 use name = form name := by
  simp only [propsRules, otherRules, List.cons_append, List.nil_append, List.mem_cons,
    List.not_mem_nil, or_false] at h
  rcases h with rfl | rfl | rfl | rfl | rfl | rfl | rfl | rfl | rfl | rfl | rfl | rfl <;>
    cases hwrite : use.isWrite <;> simp [namedForms, hwrite]

theorem exists_form_of_byTag? {rules : List TagRule} (hrules : rules ⊆ propsRules ++ otherRules)
    {use : AccessUse} {name : String} {tag : Provenance} {r : Replacement}
    (h : byTag? rules use name tag = some r) : ∃ form ∈ namedForms, r = form name := by
  obtain ⟨rule, hlookup, rfl⟩ := Option.map_eq_some_iff.mp h
  obtain ⟨front, back, rfl, -⟩ := List.lookup_eq_some_iff.mp hlookup
  exact exists_form_of_rule (hrules (List.mem_append_right _ (List.mem_cons_self ..))) use name

/-- What is written for an access: its name in some form where it is registered,
what a plugin knows the name as, or a fallback. -/
theorem replacementFor?_cases {use : AccessUse} {registered : Option Provenance}
    {name : Option String} {r : Replacement} (h : replacementFor? use registered name = some r) :
    (∃ n, name = some n ∧ registered.isSome = true ∧ ∃ form ∈ namedForms, r = form n) ∨
    (name = some "$emit" ∧ r = .emit) ∨ (name = some "$router" ∧ r = .router) ∨
    (name = some "$route" ∧ r = .route) ∨ (FallsBack registered name ∧ r = .fallback name) := by
  unfold replacementFor? at h
  split at h
  · cases h
    exact .inr (.inr (.inr (.inr ⟨.inl rfl, rfl⟩)))
  rename_i n
  split at h
  · rcases Option.or_eq_some_iff.mp h with h | ⟨-, h⟩
    · have hform := exists_form_of_byTag? (List.subset_append_left ..) h
      exact .inl ⟨n, rfl, rfl, hform⟩
    · split at h
      · rename_i hemit
        cases h
        exact .inr (.inl ⟨congrArg some hemit, rfl⟩)
      · have hform := exists_form_of_byTag? (List.subset_append_right ..) h
        exact .inl ⟨n, rfl, rfl, hform⟩
  · grind [FallsBack]

/-! ## Falling back -/

theorem length_flatMap_escapeChar (cs : List Char) :
    cs.length ≤ (cs.flatMap escapeChar).length := by
  induction cs with
  | nil => exact Nat.le_refl 0
  | cons c cs ih =>
      have hescape : 1 ≤ (escapeChar c).length := by
        obtain ⟨letter, -, h⟩ | ⟨-, h⟩ := escapeChar_cases c <;> simp [h]
      rw [List.flatMap_cons, List.length_append, List.length_cons]
      omega

theorem length_quote (value : String) : value.length ≤ (quote value).length := by
  have hescaped := length_flatMap_escapeChar value.toList
  simp only [String.length_toList] at hescaped
  simp only [quote, String.length_ofList, List.length_cons, List.length_append]
  omega

/-- The text of a fallback is longer than that of any other replacement. -/
theorem length_text_fallback (name : String) :
    name.length + 15 ≤ (Replacement.fallback (some name)).text.length := by
  have hquote := length_quote name
  have hdot : ("instance.proxy" ++ ".").length = 15 := by decide
  have hbracket : ("instance.proxy" ++ "[").length = 15 := by decide
  rw [Replacement.text, memberAccess]
  split
  · rw [String.length_append, hdot]
    omega
  · rw [String.length_append, String.length_append, hbracket]
    omega

/-- Where a name is known, the text of its fallback is that of no other replacement. -/
theorem text_ne_text_fallback {name : String} {form : String → Replacement}
    (hform : form ∈ namedForms) : (form name).text ≠ (Replacement.fallback (some name)).text := by
  have hlong := length_text_fallback name
  have hshort : (form name).text.length < name.length + 15 := by
    have hlengths : ".value".length = 6 ∧ "props.".length = 6 ∧ "unref(".length = 6 ∧
        ")".length = 1 := by decide
    simp only [namedForms, List.mem_cons, List.not_mem_nil, or_false] at hform
    rcases hform with rfl | rfl | rfl | rfl <;>
      simp only [Replacement.text, String.length_append] <;> omega
  intro heq
  rw [heq] at hshort
  omega

theorem text_eq_fallback_iff {use : AccessUse} {registered : Option Provenance}
    {name : Option String} {r : Replacement} (h : replacementFor? use registered name = some r) :
    r.text = (Replacement.fallback name).text ↔ FallsBack registered name := by
  rcases replacementFor?_cases h with ⟨n, rfl, hregistered, form, hform, rfl⟩ | ⟨rfl, rfl⟩ |
    ⟨rfl, rfl⟩ | ⟨rfl, rfl⟩ | ⟨hfalls, rfl⟩
  · have hne : ¬ FallsBack registered (some n) := by
      rintro (hnone | ⟨_, -, hnone, -⟩)
      · cases hnone
      · rw [hnone] at hregistered
        cases hregistered
    simp [text_ne_text_fallback hform, hne]
  · simp +decide [FallsBack]
  · simp +decide [FallsBack]
  · simp +decide [FallsBack]
  · simp [hfalls]

/-! ## Resolving all accesses -/

/-- What is known of the edit at a site of a script. -/
structure Site.IsResolved (script : Script) (registry : Registry) (settings : Settings)
    (c : Collected) (s : Site) (e : Edit) : Prop where
  span : e.span = s.replaced
  /-- The replacement for the access is written, with its helpers bound. -/
  text : ∃ use r, s.access use ∈ accesses .other script.tree ∧
    replacementFor? use (s.name?.bind registry.source?) s.name? = some r ∧
    e.text = r.text ∧ r.IsBound settings (s.name?.bind registry.source?) c
  falls_iff : e.text = (Replacement.fallback s.name?).text ↔
    FallsBack (s.name?.bind registry.source?) s.name?

/-- Whether an access at a site is replaced. -/
def Site.isReplaced (registry : Registry) (s : Site) : Bool :=
  (replacementFor? .other (s.name?.bind registry.source?) s.name?).isSome

theorem isSome_byTag? (rules : List TagRule) (use : AccessUse) (name : String) (tag : Provenance) :
    (byTag? rules use name tag).isSome = (rules.lookup tag).isSome := by
  rw [byTag?, Option.isSome_map]

/-- The use of an access does not matter for whether it is replaced. -/
theorem isSome_replacementFor? (use use' : AccessUse) (registered : Option Provenance)
    (name : Option String) :
    (replacementFor? use registered name).isSome
      = (replacementFor? use' registered name).isSome := by
  cases name with
  | none => rfl
  | some name =>
      cases registered with
      | none => rfl
      | some tag =>
          simp only [replacementFor?, Option.isSome_or]
          split <;> simp only [isSome_byTag?]

section

variable {registry : Registry} {script : Script} {settings : Settings} {excluded : List Span}
  {s : Site} {a : Access}

theorem exists_isResolved (hmem : a ∈ script.accessesOutside excluded) (haccess : s.HasAccess a)
    (hreplaced : s.isReplaced registry = true) :
    ∃ e, editFor? registry a = some e ∧ s.IsResolved script registry settings
      (resolveMembers script registry ownPlugins settings excluded).collected e := by
  obtain ⟨use, rfl⟩ := haccess
  rw [Site.isReplaced, isSome_replacementFor? .other use] at hreplaced
  obtain ⟨r, hr⟩ := Option.isSome_iff_exists.mp hreplaced
  have hbound : r.IsBound settings (s.name?.bind registry.source?)
      (resolveMembers script registry ownPlugins settings excluded).collected :=
    Replacement.isBound_of_support (has_support _ {} hmem hr)
  have haccesses : s.access use ∈ accesses .other script.tree := List.mem_of_mem_filter hmem
  exact ⟨⟨s.replaced, r.text⟩, congrArg (Option.map _) hr, rfl,
    ⟨use, r, haccesses, hr, rfl, hbound⟩, text_eq_fallback_iff hr⟩

theorem editFor?_eq_none (haccess : s.HasAccess a) (hreplaced : ¬ s.isReplaced registry = true) :
    editFor? registry a = none := by
  obtain ⟨use, rfl⟩ := haccess
  rw [Site.isReplaced, isSome_replacementFor? .other use,
    Option.not_isSome_iff_eq_none] at hreplaced
  exact congrArg (Option.map _) hreplaced

end

theorem forall₂_filter_filterMap {α β γ : Type} {R : α → β → Prop} {P : α → γ → Prop}
    {p : α → Bool} {g : β → Option γ} {as : List α} {bs : List β} (h : List.Forall₂ R as bs)
    (hsome : ∀ a, ∀ b ∈ bs, R a b → p a = true → ∃ c, g b = some c ∧ P a c)
    (hnone : ∀ a b, R a b → ¬ p a = true → g b = none) :
    List.Forall₂ P (as.filter p) (bs.filterMap g) := by
  induction h with
  | nil => exact .nil
  | @cons a b as bs hab _ ih =>
      have hrest := ih fun a b hb => hsome a b (List.mem_cons_of_mem _ hb)
      by_cases hp : p a = true
      · obtain ⟨c, hc, hP⟩ := hsome a b (List.mem_cons_self ..) hab hp
        rw [List.filter_cons_of_pos hp, List.filterMap_cons_some hc]
        exact .cons hP hrest
      · rw [List.filter_cons_of_neg hp, List.filterMap_cons_none (hnone a b hab hp)]
        exact hrest

/-- One edit is recorded at each site that is replaced, in their order. -/
theorem isResolved_of_isReplaced (script : Script) (registry : Registry) (settings : Settings)
    (excluded : List Span) :
    let r := resolveMembers script registry ownPlugins settings excluded
    List.Forall₂ (Site.IsResolved script registry settings r.collected)
      ((script.sitesOutside excluded).filter (·.isReplaced registry)) r.edits.recorded := by
  intro r
  have hrecorded : r.edits.recorded
      = (script.accessesOutside excluded).filterMap (editFor? registry) :=
    recorded_resolveMembers excluded
  rw [hrecorded]
  exact forall₂_filter_filterMap (hasAccess_sitesOutside script excluded)
    (fun _ _ hmem haccess hreplaced => exists_isResolved hmem haccess hreplaced)
    (fun _ _ haccess hreplaced => editFor?_eq_none haccess hreplaced)

/-! ## After the first pass -/

/-- A name that is not registered, or registered under an answered tag, is replaced. -/
theorem isReplaced_of_all {registry : Registry} (h : registry.All IsAnswered) (s : Site) :
    s.isReplaced registry = true := by
  unfold Site.isReplaced
  cases s.name? with
  | none => rfl
  | some name =>
      rw [Option.bind_some]
      cases htag : registry.source? name with
      | some tag =>
          obtain ⟨r, hr⟩ := (h.source? htag).exists_replacementFor? .other
          rw [hr]
          rfl
      | none =>
          dsimp only [replacementFor?]
          split_ifs <;> rfl

/-- One edit is recorded at each site, in their order. -/
theorem resolveMembers_isResolved (options : Options) (hplugins : options.plugins = [])
    {component : Script} {object : Script.Tree} {pass : OptionsPass}
    (hpass : transformOptions component object options.allPlugins options.settings = .ok pass)
    (script : Script) (excluded : List Span) :
    let r := resolveMembers script pass.registry options.allPlugins options.settings excluded
    List.Forall₂ (Site.IsResolved script pass.registry options.settings r.collected)
      (script.sitesOutside excluded) r.edits.recorded := by
  rw [allPlugins_of_no_plugins hplugins] at hpass ⊢
  have hregistry : pass.registry.All IsAnswered :=
    all_transformOptions (registers_ownPlugins options.settings) hpass
  have hsites : (script.sitesOutside excluded).filter (·.isReplaced pass.registry)
      = script.sitesOutside excluded :=
    List.filter_eq_self.mpr fun s _ => isReplaced_of_all hregistry s
  rw [← hsites]
  exact isResolved_of_isReplaced script pass.registry options.settings excluded

open Script (Tree) in
/-- A method, and accesses to it and to the router. -/
theorem resolveMembers_isResolved_method :
    let object : Tree := .node .object ⟨0, 26⟩ [.node .keyValue ⟨2, 24⟩
      [.leaf (.ident "methods") ⟨2, 9⟩, .node .object ⟨11, 24⟩ [.node .keyValue ⟨13, 22⟩
        [.leaf (.ident "load") ⟨13, 17⟩, .leaf (.ident "get") ⟨19, 22⟩]]]]
    let script : Script := ⟨"this.load(this.$router)", {}, .node .program ⟨0, 23⟩
      [.node .exprStmt ⟨0, 23⟩ [.node .call ⟨0, 23⟩
        [.node .member ⟨0, 9⟩ [.leaf .thisExpr ⟨0, 4⟩, .leaf (.ident "load") ⟨5, 9⟩],
         .node .member ⟨10, 22⟩ [.leaf .thisExpr ⟨10, 14⟩, .leaf (.ident "$router") ⟨15, 22⟩]]]]⟩
    let options : Options := {}
    ∃ pass, transformOptions ⟨"\x7b methods: \x7b load: get \x7d \x7d", {}, object⟩ object
        options.allPlugins options.settings = .ok pass ∧
      pass.registry.source? "load" = some Methods.tag ∧
      let r := resolveMembers script pass.registry options.allPlugins options.settings []
      List.Forall₂ (Site.IsResolved script pass.registry options.settings r.collected)
        (script.sitesOutside []) r.edits.recorded := by
  intro object script options
  have htag : (transformOptions ⟨"\x7b methods: \x7b load: get \x7d \x7d", {}, object⟩ object
      options.allPlugins options.settings >>= fun pass => .ok (pass.registry.source? "load"))
        = .ok (some Methods.tag) := by
    decide +kernel
  obtain ⟨pass, hpass, hsource⟩ := exists_of_bind_eq_ok htag
  exact ⟨pass, hpass, Except.ok.inj hsource, resolveMembers_isResolved options rfl hpass script []⟩

end Recompose
