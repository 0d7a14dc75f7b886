import Recompose.Proofs.EmittedCode
import Recompose.Proofs.Scopes

/-!
# Names of an inlined setup function

The body of a setup function is cut at its first return. What stands in front of it is
taken over as it is, so all that is declared there stays declared; what is returned gets
a constant for each key, unless the key stands for a name itself. Of the parameters only
the first has a counterpart, for which there is a constant when it has another name than
`props`. Other names of parameters are there as far as the generated code around the body
provides them: the parameters of a generated setup function, or what the options for
props and events declare.

What stands behind the return is left out, with the functions that it declares, and so
are the names that parameters bind beyond those.
-/

namespace Recompose

open Script (Tree Callable Component)

/-! ## Cut bodies -/

namespace Script

variable {text : List Char} {ts : List Tree}

/-- A body is cut at its first return. -/
theorem splitAtReturn?_eq {split : SplitBody} (h : splitAtReturn? ts = some split) :
    split.before = ts.takeWhile (·.kind != .returnStmt) ∧
      split.returned = (ts.find? (·.kind == .returnStmt)).bind fun ret =>
        ret.parts.head?.map Tree.unparen := by
  induction ts generalizing split with
  | nil => cases h
  | cons t ts ih =>
      rw [splitAtReturn?] at h
      split at h
      · rename_i hkind
        cases h
        simp [hkind, bne]
      · rename_i hkind
        obtain ⟨rest, hrest, rfl⟩ := Option.map_eq_some_iff.mp h
        obtain ⟨hbefore, hreturned⟩ := ih hrest
        simp [hkind, bne, hbefore, hreturned]

/-- The span of statements that stand one behind the other has all of them in it. -/
theorem statementsSpan?_covers {span : Span} (hnested : ∀ t ∈ ts, t.Nested text)
    (hsucc : Successive ts) (h : statementsSpan? ts = some span) :
    span.IsSlice text ∧ ∀ t ∈ ts, span.covers t.span = true := by
  obtain ⟨first, hfirst, h⟩ := Option.bind_eq_some_iff.mp h
  obtain ⟨last, hlast, h⟩ := Option.bind_eq_some_iff.mp h
  cases h
  have hfront : ∀ t ∈ ts, first.span.start ≤ t.span.start := by
    obtain ⟨rest, rfl⟩ := List.head?_eq_some_iff.mp hfirst
    rintro t (_ | ⟨_, ht⟩)
    · exact Nat.le_refl _
    · have hle := (hnested first (List.mem_cons_self ..)).le
      exact Nat.le_trans hle ((List.pairwise_cons.mp hsucc).1 t ht)
  have hback : ∀ t ∈ ts, t.span.stop ≤ last.span.stop := by
    obtain ⟨front, rfl⟩ := List.getLast?_eq_some_iff.mp hlast
    intro t ht
    rcases List.mem_append.mp ht with ht | ht
    · have hle := (hnested last (List.mem_append_right _ (List.mem_singleton_self _))).le
      refine Nat.le_trans ?_ hle
      exact (List.pairwise_append.mp hsucc).2.2 t ht last (List.mem_singleton_self _)
    · rw [List.mem_singleton.mp ht]
  have hmem := List.mem_of_getLast? hlast
  refine ⟨.of_boundaries ?_ (hnested first (List.mem_of_mem_head? hfirst)).isSlice.start
    (hnested last hmem).isSlice.stop, fun t ht => Span.covers_iff.mpr ⟨hfront t ht, hback t ht⟩⟩
  exact Nat.le_trans (hfront last hmem) (hnested last hmem).le

/-- The text under a span is a part of the text under a span around it. -/
theorem infix_textAt {script : Script} {outer inner : Span}
    (houter : outer.IsSlice script.source.toList) (hinner : inner.IsSlice script.source.toList)
    (hcovers : outer.covers inner = true) :
    (script.textAt inner).toList <:+: (script.textAt outer).toList := by
  obtain ⟨hlo, hhi⟩ := Span.covers_iff.mp hcovers
  obtain ⟨a, ha⟩ := houter.start
  obtain ⟨b, hb⟩ := hinner.start
  obtain ⟨c, hc⟩ := hinner.stop
  obtain ⟨d, hd⟩ := houter.stop
  obtain ⟨front, rfl, hfront⟩ := ha.between hb hlo
  obtain ⟨mid, rfl, hmid⟩ := hb.between hc hinner.ordered
  obtain ⟨back, rfl, hback⟩ := hc.between hd hhi
  have hinnerText : inner.chars? script.source.toList = some mid :=
    Span.chars?_eq_some_iff.mpr ⟨hinner.ordered, back ++ d, hb, hmid⟩
  have houterText : outer.chars? script.source.toList = some (front ++ mid ++ back) := by
    refine Span.chars?_eq_some_iff.mpr ⟨houter.ordered, d, by simpa using ha, ?_⟩
    rw [byteSize_append, byteSize_append, hfront, hmid, hback]
    have := hinner.ordered
    omega
  simp only [textAt, Span.slice?, hinnerText, houterText, Option.map_some, Option.getD_some,
    String.toList_ofList]
  exact ⟨front, back, rfl⟩

end Script

/-- A setup option that is a function with a block for its body, and is taken over. -/
structure SetupOption (script : Script) (options : Options) where
  component : Component
  property : Tree
  value : Tree
  callable : Callable
  block : Tree
  output : Output
  component_eq : script.component = .ok (some component)
  mem : property ∈ component.object.parts
  option_eq : property.option? = some ("setup", value)
  callable_eq : value.asFunction? = some callable
  body_eq : callable.body = .block block
  transform_eq : Setup.transform options.settings ⟨"setup", value, script⟩ = .ok output

namespace SetupOption

variable {script : Script} {options : Options} (s : SetupOption script options)

def asOption : ComponentOption := ⟨"setup", s.value, script⟩

/-- The statements in front of the first return. -/
def before : List Tree := s.block.parts.takeWhile (·.kind != .returnStmt)

/-- What the first return gives, parentheses taken off. -/
def returned? : Option Tree :=
  (s.block.parts.find? (·.kind == .returnStmt)).bind fun ret => ret.parts.head?.map Tree.unparen

/-- The names that a setup function binds at its top, and those that it returns. -/
def names : List String :=
  let function := if s.value.isExpression then s.value.unparen else s.value
  (function.parts.filter isParam).flatMap boundNames ++ s.block.parts.flatMap declaredNames ++
    (s.returned?.map (·.properties.names)).getD []

/-- The last option of a component. -/
def last? (script : Script) (options : Options) : Option (SetupOption script options) :=
  match component_eq : script.component with
  | .ok (some component) =>
    match hlast : component.object.parts.getLast? with
    | some property =>
      match option_eq : property.option? with
      | some ("setup", value) =>
        match callable_eq : value.asFunction? with
        | some callable =>
          match body_eq : callable.body,
              transform_eq : Setup.transform options.settings ⟨"setup", value, script⟩ with
          | .block block, .ok output =>
            some { component, property, value, callable, block, output, component_eq,
                   mem := List.mem_of_getLast? hlast, option_eq, callable_eq, body_eq,
                   transform_eq }
          | _, _ => none
        | none => none
      | _ => none
    | none => none
  | _ => none

/-- The fragments for the parts of a setup function. -/
theorem exists_returned : ∃ object, s.returned? = some object ∧ object.kind = .object ∧
    s.output.fragments = Setup.propsAlias s.callable ++
      (Script.statementsSpan? s.before).toList.map (fun span => .code (script.codeAt span 0) .state) ++
      Setup.returned s.asOption object := by
  have h := s.transform_eq
  unfold Setup.transform at h
  rw [s.callable_eq] at h
  obtain ⟨⟨span?, object⟩, hreturned, h⟩ := exists_of_bind_eq_ok h
  obtain ⟨⟨taken?, returned⟩, hsplit, hreturned⟩ := exists_of_bind_eq_ok hreturned
  unfold ComponentOption.splitReturn at hsplit
  rw [s.body_eq] at hsplit
  dsimp only at hsplit hreturned h
  split at hsplit
  · rename_i split hcut
    cases hsplit
    obtain ⟨hbefore, hfound⟩ := Script.splitAtReturn?_eq hcut
    split at hreturned
    · rename_i found hsome
      split at hreturned
      · rename_i hkind
        cases hreturned
        refine ⟨object, hfound.symm.trans hsome, eq_of_beq hkind, ?_⟩
        rw [← Except.ok.inj h, before, ← hbefore]
        rfl
      · cases hreturned
    · cases hreturned
  · cases hsplit

end SetupOption

/-! ## Names that are bound -/

/-- A statement stands, with its whole text, in emitted code. -/
def Script.Emits (script : Script) (fragments : List Fragment) (t : Tree) : Prop :=
  ∃ span, span.covers t.span = true ∧
    (script.text t).toList <:+: (script.textAt span).toList ∧
    .code (script.codeAt span 0) .state ∈ fragments

/-- The names that the parameters of the generated setup function bind. -/
def signatureNames : List String :=
  match Script.read {} ("(\x7b " ++ setupSignature ++ " \x7b\x7d \x7d)") with
  | .ok script => namesOfParams script.tree
  | .error _ => []
where
  namesOfParams : Tree → List String
    | .node (.method _ _) _ parts => (parts.filter isParam).flatMap boundNames
    | .node _ _ [inner] => namesOfParams inner
    | _ => []

example : signatureNames = ["props", "attrs", "slots", "emit", "expose"] := by decide +kernel

/-- How the generated code binds a name of a body. -/
inductive IsBound (script : Script) (block : Tree) (settings : Settings)
    (fragments : List Fragment) (name : String) : Prop where
  /-- A statement of the body declares it and is emitted. -/
  | statement {t : Tree} (ht : t ∈ block.parts) (hname : name ∈ declaredNames t ++ varNames t)
      (h : script.Emits fragments t)
  | constant {value : String} {priority : Priority}
      (h : .code ("const " ++ name ++ " = " ++ value) priority ∈ fragments)
  /-- It is taken out of a value, and may have a default. -/
  | property {binding value : String} {bindings : List String} {priority : Priority}
      (hname : binding = name ∨ ∃ default, binding = name ++ " = " ++ default)
      (hbinding : binding ∈ bindings)
      (h : .code ("const " ++ multilineObject bindings ++ " = " ++ value) priority ∈ fragments)
  | parameter (hmode : settings.scriptSetup = false) (hname : name ∈ signatureNames)

/-- The names that generated code provides to a body, whatever the body is: the parameters
of a setup function, or what the options for props and events declare in a setup script. -/
def providedNames (script : Script) (object : Tree) (settings : Settings) : List String :=
  if settings.scriptSetup then
    object.parts.flatMap fun property =>
      match property.option? with
      | some ("props", value) =>
        if settings.destructuresProps then
          (ComponentOption.declared ⟨"props", value, script⟩).names
        else ["props"]
      | some ("emits", _) => ["emit"]
      | _ => []
  else signatureNames

section

variable {script : Script} {options : Options} {object block : Tree} {name : String}

theorem builtin_mem_allPlugins {plugin : Plugin} (h : plugin ∈ builtinPlugins) :
    plugin ∈ options.allPlugins :=
  List.mem_append_left _ (List.mem_append_left _ (List.mem_append_right _ h))

/-- What an option says about its props. -/
def Props.shapes (o : ComponentOption) : Entries Props.Shape :=
  o.declared.map fun (name, value) => (name, Props.Shape.read value)

theorem exists_declaration_whole {settings : Settings} (o : ComponentOption)
    (shapes : Entries Props.Shape) (hwhole : settings.destructuresProps = false) :
    ∃ value, Props.declaration settings o shapes = "const " ++ "props" ++ " = " ++ value := by
  unfold Props.declaration
  rw [hwhole]
  dsimp only
  rw [if_neg Bool.false_ne_true]
  generalize List.filterMap _ shapes = defaults
  have hhead : "const " ++ "props" ++ " = " = "const props = " := by decide
  have hdefaults : "const props = withDefaults(" = "const props = " ++ "withDefaults(" := by decide
  split
  · exact ⟨_, by rw [hhead]⟩
  · exact ⟨_, by rw [hhead, hdefaults, String.append_assoc, String.append_assoc, String.append_assoc,
      String.append_assoc]⟩

/-- Where props are destructured, each has its place in the pattern. -/
theorem exists_declaration_apart {settings : Settings} {o : ComponentOption}
    (hapart : settings.destructuresProps = true) (hname : name ∈ o.declared.names) :
    ∃ binding bindings value,
      (binding = name ∨ ∃ default, binding = name ++ " = " ++ default) ∧ binding ∈ bindings ∧
      Props.declaration settings o (Props.shapes o)
        = "const " ++ multilineObject bindings ++ " = " ++ value := by
  obtain ⟨⟨_, value⟩, hdeclared, rfl⟩ := List.mem_map.mp hname
  unfold Props.declaration
  rw [hapart]
  dsimp only
  rw [if_pos rfl]
  refine ⟨_, _, _, ?_, List.mem_map_of_mem (List.mem_map_of_mem hdeclared), rfl⟩
  dsimp only
  split
  · split
    · exact .inr ⟨_, rfl⟩
    · exact .inl rfl
  · exact .inl rfl

theorem exists_declaration_emit (settings : Settings) (o : ComponentOption) :
    ∃ value, Emits.declaration settings o = "const " ++ "emit" ++ " = " ++ value := by
  have htyped : "const emit = defineEmits<"
      = "const " ++ "emit" ++ " = " ++ "defineEmits<" := by decide
  have hplain : "const emit = defineEmits("
      = "const " ++ "emit" ++ " = " ++ "defineEmits(" := by decide
  unfold Emits.declaration
  split
  · exact ⟨_, by rw [htyped, String.append_assoc, String.append_assoc]⟩
  · exact ⟨_, by rw [hplain, String.append_assoc, String.append_assoc]⟩

/-- The declaration of the props is emitted in a setup script. -/
theorem props_mem_emitted {property value : Tree} (hmode : options.settings.scriptSetup = true)
    (hproperty : property ∈ object.parts) (hoption : property.option? = some ("props", value)) :
    .code (Props.declaration options.settings ⟨"props", value, script⟩
      (Props.shapes ⟨"props", value, script⟩)) .interface ∈ emitted script object options := by
  have hplugin : Props.plugin ∈ options.allPlugins :=
    builtin_mem_allPlugins (List.mem_cons_self ..)
  have hanswer : ∃ names, Props.transform options.settings ⟨"props", value, script⟩
      = .ok { fragments := names ++ [.code (Props.declaration options.settings
          ⟨"props", value, script⟩ (Props.shapes ⟨"props", value, script⟩)) .interface] } := by
    unfold Props.transform
    rw [hmode]
    exact ⟨_, rfl⟩
  obtain ⟨names, hanswer⟩ := hanswer
  exact mem_emitted_of_answer hproperty hoption hplugin rfl hanswer
    (List.mem_append_right _ (List.mem_singleton_self _))

theorem emits_mem_emitted {property value : Tree} (hmode : options.settings.scriptSetup = true)
    (hproperty : property ∈ object.parts) (hoption : property.option? = some ("emits", value)) :
    .code (Emits.declaration options.settings ⟨"emits", value, script⟩) .interface
      ∈ emitted script object options := by
  have hplugin : Emits.plugin ∈ options.allPlugins :=
    builtin_mem_allPlugins (List.mem_cons_of_mem _ (List.mem_cons_self ..))
  have hanswer : ∃ known, Emits.transform options.settings ⟨"emits", value, script⟩
      = .ok { fragments := [known,
          .code (Emits.declaration options.settings ⟨"emits", value, script⟩) .interface] } := by
    unfold Emits.transform
    rw [hmode]
    exact ⟨_, rfl⟩
  obtain ⟨known, hanswer⟩ := hanswer
  exact mem_emitted_of_answer hproperty hoption hplugin rfl hanswer
    (List.mem_cons_of_mem _ (List.mem_singleton_self _))

theorem isBound_of_mem_providedNames (h : name ∈ providedNames script object options.settings) :
    IsBound script block options.settings (emitted script object options) name := by
  unfold providedNames at h
  split at h
  · rename_i hmode
    obtain ⟨property, hproperty, hname⟩ := List.mem_flatMap.mp h
    split at hname
    · rename_i value hoption
      have hcode : .code _ _ ∈ emitted script object options :=
        props_mem_emitted hmode hproperty hoption
      split at hname
      · rename_i hapart
        obtain ⟨binding, bindings, text, hbinding, hmem, htext⟩ :=
          exists_declaration_apart hapart hname
        rw [htext] at hcode
        exact .property hbinding hmem hcode
      · rename_i hwhole
        obtain ⟨text, htext⟩ := exists_declaration_whole ⟨"props", value, script⟩ _
          (Bool.eq_false_iff.mpr hwhole)
        rw [htext] at hcode
        rw [List.mem_singleton.mp hname]
        exact .constant hcode
    · rename_i value hoption
      have hcode : .code _ _ ∈ emitted script object options :=
        emits_mem_emitted hmode hproperty hoption
      obtain ⟨text, htext⟩ := exists_declaration_emit options.settings ⟨"emits", value, script⟩
      rw [htext] at hcode
      rw [List.mem_singleton.mp hname]
      exact .constant hcode
    · cases hname
  · rename_i hmode
    exact .parameter (Bool.eq_false_iff.mpr hmode) h

end

/-! ## Inlined bodies -/

theorem exists_statementsSpan? {ts : List Tree} {t : Tree} (ht : t ∈ ts) :
    ∃ span, Script.statementsSpan? ts = some span := by
  cases ts with
  | nil => cases ht
  | cons first ts =>
      obtain ⟨last, hlast⟩ := Option.isSome_iff_exists.mp
        (List.getLast?_isSome.mpr (List.cons_ne_nil first ts))
      exact ⟨first.span.upTo last.span, by simp [Script.statementsSpan?, hlast]⟩

theorem mem_propsAlias {f : Callable} {name : String} (hfirst : f.firstParam? = some name)
    (hname : name ≠ "props") :
    .code ("const " ++ name ++ " = " ++ "props") .state ∈ Setup.propsAlias f := by
  have hprops : " = props" = " = " ++ "props" := by decide
  rw [Setup.propsAlias, hfirst]
  dsimp only
  rw [if_neg (by simpa using hname), hprops, ← String.append_assoc]
  exact List.mem_singleton_self _

theorem mem_returned {o : ComponentOption} {object value : Tree} {key : String}
    (h : (key, value) ∈ object.properties) :
    .property key Setup.tag true ∈ Setup.returned o object ∧ (value.asIdent? = some key ∨
      .code ("const " ++ key ++ " = " ++ o.valueCode value) .state ∈ Setup.returned o object) := by
  by_cases hname : value.asIdent? = some key
  · refine ⟨List.mem_flatMap.mpr ⟨_, h, ?_⟩, .inl hname⟩
    simp [hname]
  · refine ⟨List.mem_flatMap.mpr ⟨_, h, ?_⟩, .inr (List.mem_flatMap.mpr ⟨_, h, ?_⟩)⟩
    · simp [hname]
    · simp [hname]

namespace SetupOption

variable {script : Script} {options : Options} (s : SetupOption script options)

/-- All that is emitted for the component. -/
def fragments : List Fragment := emitted script s.component.object options

/-- The generated code binds a name of the body. -/
def Binds (name : String) : Prop := IsBound script s.block options.settings s.fragments name

theorem mem_fragments {fragment : Fragment} (h : fragment ∈ s.output.fragments) :
    fragment ∈ s.fragments := by
  have hplugin : Setup.plugin ∈ options.allPlugins :=
    builtin_mem_allPlugins (by simp [builtinPlugins])
  exact mem_emitted_of_answer s.mem s.option_eq hplugin rfl s.transform_eq h

/-- What becomes of a setup function that returns an object behind some statements. -/
structure IsInlined [Script.Reader] (object : Tree) : Prop where
  /-- Statements in front of the return are emitted. -/
  statements : ∀ t ∈ s.before, script.Emits s.fragments t
  declared : ∀ t ∈ s.before, ∀ name ∈ declaredNames t ++ varNames t, s.Binds name
  /-- Another name for the props is kept. -/
  renamed : ∀ name, s.callable.firstParam? = some name → name ≠ "props" → s.Binds name
  provided : ∀ name ∈ providedNames script s.component.object options.settings, s.Binds name
  /-- Each key is registered; it has a constant, unless its value is a name, the key. -/
  returned : ∀ key value, (key, value) ∈ object.properties →
    .property key Setup.tag true ∈ s.fragments ∧
      (value.asIdent? = some key ∨
        .code ("const " ++ key ++ " = " ++ script.valueCode value 0) .state ∈ s.fragments)
  /-- A pass prints all code that is emitted, and the signature of a setup function. -/
  printed : ∀ pass,
    transformOptions script s.component.object options.allPlugins options.settings = .ok pass →
      (∀ content priority, .code content priority ∈ s.fragments →
        pass.Prints script s.component options.settings content) ∧
      ∀ preserved applied,
        renderSetupFunction script s.component pass preserved options.settings = .ok applied →
          setupSignature.toList <:+: applied.text.toList

theorem mem_parts {t : Tree} (ht : t ∈ s.before) : t ∈ s.block.parts :=
  (List.takeWhile_sublist _).subset ht

/-- The block of a setup function is nested, and its statements stand in their order. -/
theorem nested_block (hs : script.Sound) :
    s.block.Nested script.source.toList ∧ Script.Successive s.block.parts := by
  obtain ⟨hway, hkind⟩ := Script.asFunction?_holds s.callable_eq s.body_eq
  have hproperty := (object_nested hs s.component_eq).1.part s.mem
  have hblock := hway.nested ((Script.option?_holds s.option_eq).nested hproperty)
  exact ⟨hblock, hblock.successive hkind⟩

theorem emits_of_mem_before (hs : script.Sound)
    (hcode : ∀ span, Script.statementsSpan? s.before = some span →
      .code (script.codeAt span 0) .state ∈ s.fragments) :
    ∀ t ∈ s.before, script.Emits s.fragments t := by
  obtain ⟨hblock, hsucc⟩ := s.nested_block hs
  have hnested : ∀ t ∈ s.before, t.Nested script.source.toList :=
    fun t ht => hblock.part (s.mem_parts ht)
  intro t ht
  obtain ⟨span, hspan⟩ := exists_statementsSpan? ht
  obtain ⟨hslice, hcovers⟩ :=
    Script.statementsSpan?_covers hnested (hsucc.sublist (List.takeWhile_sublist _)) hspan
  exact ⟨span, hcovers t ht,
    Script.infix_textAt hslice (hnested t ht).isSlice (hcovers t ht), hcode span hspan⟩

end SetupOption

/-- What is declared in front of the return of a setup function, another name for the props
and what generated code provides stays bound, and each key that is returned has a constant
or stands for a name itself. -/
theorem setupOption_isInlined [Script.Reader] {script : Script} (hs : script.Sound)
    {options : Options} (s : SetupOption script options) :
    ∃ object, s.returned? = some object ∧ object.kind = .object ∧ s.IsInlined object := by
  obtain ⟨object, hreturned, hkind, hfragments⟩ := s.exists_returned
  have hemitted : ∀ fragment, (fragment ∈ Setup.propsAlias s.callable ∨
      fragment ∈ (Script.statementsSpan? s.before).toList.map
        (fun span => Fragment.code (script.codeAt span 0) .state) ∨
      fragment ∈ Setup.returned s.asOption object) → fragment ∈ s.fragments := by
    intro fragment h
    refine s.mem_fragments ?_
    rw [hfragments, List.append_assoc]
    simpa only [List.mem_append] using h
  have hstatements : ∀ t ∈ s.before, script.Emits s.fragments t := by
    refine s.emits_of_mem_before hs fun span hspan => ?_
    refine hemitted _ (.inr (.inl ?_))
    rw [hspan]
    exact List.mem_singleton_self _
  refine ⟨object, hreturned, hkind, ?_⟩
  exact
    { statements := hstatements
      declared := fun t ht name hname => .statement (s.mem_parts ht) hname (hstatements t ht)
      renamed := fun name hfirst hname => .constant (hemitted _ (.inl (mem_propsAlias hfirst hname)))
      provided := fun name hname => isBound_of_mem_providedNames hname
      returned := by
        intro key value hkey
        obtain ⟨hknown, hcode⟩ := mem_returned (o := s.asOption) hkey
        exact ⟨hemitted _ (.inr (.inr hknown)),
          hcode.imp_right fun hcode => hemitted _ (.inr (.inr hcode))⟩
      printed := fun pass hpass => ⟨fun content priority hcode => prints_of_mem_emitted hpass hcode,
        fun preserved applied hrender => infix_setupSignature hrender⟩ }

/-- Constants, a function and parameters stay bound. -/
theorem setupOption_isInlined_events :
    let source := "export default \x7b props: ['a'], emits: ['e'], setup(p, \x7b emit \x7d) \x7b " ++
      "const \x7b k \x7d = p; function f() \x7b\x7d return \x7b k \x7d \x7d \x7d"
    ∃ script, Script.read {} source = .ok script ∧ ∃ s : SetupOption script {},
      ∀ name ∈ ["k", "f", "p", "a", "emit"], s.Binds name := by
  intro source
  have h : (Script.read {} source >>= fun script =>
      .ok ((SetupOption.last? script {}).any fun s =>
        s.before.flatMap declaredNames == ["k", "f"] &&
        s.callable.firstParam? == some "p" &&
        providedNames script s.component.object {} == ["a", "emit"])) = .ok true := by
    decide +kernel
  obtain ⟨script, hscript, h⟩ := exists_of_bind_eq_ok h
  obtain ⟨s, -, hs⟩ := (Option.any_eq_true ..).mp (Except.ok.inj h)
  simp only [Bool.and_eq_true, beq_iff_eq] at hs
  obtain ⟨⟨hdeclared, hfirst⟩, hprovided⟩ := hs
  obtain ⟨object, -, -, hinlined⟩ := setupOption_isInlined (Script.sound_of_read hscript) s
  refine ⟨script, hscript, s, ?_⟩
  intro name hname
  have hcases : name ∈ s.before.flatMap declaredNames ∨ name = "p" ∨
      name ∈ providedNames script s.component.object {} := by
    rw [hdeclared, hprovided]
    simpa [or_assoc] using hname
  rcases hcases with hname | rfl | hname
  · obtain ⟨t, ht, hname⟩ := List.mem_flatMap.mp hname
    exact hinlined.declared t ht name (List.mem_append_left _ hname)
  · exact hinlined.renamed "p" hfirst (by decide)
  · exact hinlined.provided name hname

def Fragment.isCode : Fragment → Bool
  | .code _ _ => true
  | _ => false

/-- Where no code is emitted for a setup script, nothing is bound. -/
theorem not_isBound_of_no_code {script : Script} {block : Tree} {settings : Settings}
    {fragments : List Fragment} (hmode : settings.scriptSetup = true)
    (h : ∀ content priority, .code content priority ∉ fragments) (name : String) :
    ¬ IsBound script block settings fragments name := by
  rintro (⟨-, -, span, -, -, hcode⟩ | hcode | ⟨-, -, hcode⟩ | ⟨hfunction, -⟩)
  · exact h _ _ hcode
  · exact h _ _ hcode
  · exact h _ _ hcode
  · rw [hmode] at hfunction
    cases hfunction

/-- Names of the setup function of a script that the generated code does not bind. -/
def LeavesUnbound (source : String) (names : List String) : Prop :=
  ∃ script, Script.read {} source = .ok script ∧ ∃ s : SetupOption script {},
    ∀ name ∈ names, name ∈ s.names ∧ ¬ s.Binds name

theorem leavesUnbound_of_no_code {source : String} {names : List String}
    (h : (Script.read {} source >>= fun script =>
      .ok ((SetupOption.last? script {}).any fun s =>
        names.all (s.names.contains ·) && s.fragments.all (!·.isCode))) = .ok true) :
    LeavesUnbound source names := by
  obtain ⟨script, hscript, h⟩ := exists_of_bind_eq_ok h
  obtain ⟨s, -, hs⟩ := (Option.any_eq_true ..).mp (Except.ok.inj h)
  rw [Bool.and_eq_true, List.all_eq_true, List.all_eq_true] at hs
  refine ⟨script, hscript, s, fun name hname => ⟨?_, not_isBound_of_no_code rfl ?_ name⟩⟩
  · simpa using hs.1 name hname
  · intro content priority hcode
    cases hs.2 _ hcode

/-- A function behind the return, names of parameters and a key that stands for a name
outside of the function are left without a binding. -/
theorem setupOption_leavesUnbound :
    LeavesUnbound
        "export default \x7b setup() \x7b return \x7b f \x7d; function f() \x7b\x7d \x7d \x7d"
        ["f"] ∧
      LeavesUnbound
        "const k = 1\nexport default \x7b setup(\x7b a \x7d, ctx) \x7b return \x7b k \x7d \x7d \x7d"
        ["a", "ctx", "k"] :=
  ⟨leavesUnbound_of_no_code (by decide +kernel), leavesUnbound_of_no_code (by decide +kernel)⟩

end Recompose
