import Recompose.Proofs.OptionCalls
import Recompose.Proofs.Replacements
import Recompose.Proofs.Script.Written

/-!
# Accesses to props

Where props are not destructured, the props option registers each of its names under the
tag of the props (`source?_prop`), and an access to such a name is written as a dot and
the name behind `props`, whatever the name is (`recorded_resolveMembers_prop`). That is
the access to the prop for identifiers only (`memberAccess_eq_dot_iff`): of a name such as
`foo-bar` it makes a subtraction. For identifiers that the lexer takes for a name as well,
the text is one member expression in every dialect (`Script.read_member`).
-/

namespace Recompose

open Script (IsName IsOperand)

/-! ## What is written -/

theorem memberAccess_eq_dot_iff (base name : String) :
    memberAccess base name = base ++ "." ++ name ↔ isIdentifier name = true := by
  unfold memberAccess
  constructor
  · intro h
    by_contra hname
    rw [if_neg hname, String.append_assoc, String.append_assoc, String.append_assoc] at h
    have hchars : base.toList ++ '[' :: (quote name ++ "]").toList
        = base.toList ++ '.' :: name.toList := by
      simpa using congrArg String.toList h
    cases List.append_cancel_left hchars
  · intro hname
    rw [if_pos hname]

/-- A prop is read behind `props`, whatever it is called. -/
theorem visit_props (settings : Settings) (name : String) (use : AccessUse) (text : String) :
    Props.visit settings ⟨some name, use, some Props.tag, text⟩
      = [.replacement ("props." ++ name)] := by
  rw [visit_props_registered]
  rfl

/-- No plugin replaces an access to a prop of a name. -/
def LeavesProp (settings : Settings) (name : String) (plugins : List Plugin) : Prop :=
  ∀ p ∈ plugins, ∀ use text,
    replaces (p.visit settings ⟨some name, use, some Props.tag, text⟩) = false

/-- A props option registers each name that it declares. -/
theorem mem_fragments_props {settings : Settings} {o : ComponentOption} {output : Output}
    (h : Props.transform settings o = .ok output) {name : String} (hname : name ∈ o.declared.names) :
    .property name (if settings.destructuresProps then Props.destructuredTag else Props.tag) false
      ∈ output.fragments := by
  obtain ⟨⟨_, value⟩, hmem, rfl⟩ := List.mem_map.mp hname
  simp only [Props.transform] at h
  split at h
  · cases h
    exact List.mem_map.mpr ⟨_, hmem, rfl⟩
  · cases h
    exact List.mem_append_left _ (List.mem_map.mpr ⟨_, hmem, rfl⟩)

section

variable [Script.Reader] {script : Script} {registry : Registry} {options : Options}

/-- Edits that were recorded stay. -/
theorem exists_recorded_foldl_resolve (script : Script) (registry : Registry)
    (plugins : List Plugin) (settings : Settings) (accesses : List Access) (r : Resolved) :
    ∃ later, (accesses.foldl (Resolved.resolve script registry plugins settings) r).edits.recorded
      = r.edits.recorded ++ later := by
  induction accesses generalizing r with
  | nil => exact ⟨[], (List.append_nil _).symm⟩
  | cons access accesses ih =>
      obtain ⟨asked, -, -, -, hedits⟩ := resolve_eq_asked script registry plugins settings r access
      obtain ⟨later, hlater⟩ := ih (r.resolve script registry plugins settings access)
      refine ⟨((firstReplacement? asked).map fun content =>
        ⟨access.replaced, content⟩).toList ++ later, ?_⟩
      rw [List.foldl_cons, hlater, hedits, List.append_assoc]

/-- Resolving an access to a prop records one edit, in the place of the whole access. -/
theorem recorded_resolve_prop {access : Access} {name : String} (hname : access.name = some name)
    (htag : registry.source? name = some Props.tag)
    (hpre : LeavesProp options.settings name (options.pluginsAt .pre)) (r : Resolved) :
    (r.resolve script registry options.allPlugins options.settings access).edits.recorded
      = r.edits.recorded ++ [⟨access.span, "props." ++ name⟩] := by
  obtain ⟨asked, hplugins, hanswered, -, hedits⟩ :=
    resolve_eq_asked script registry options.allPlugins options.settings r access
  rw [hname, Option.bind_some, htag] at hanswered
  have hflat := hanswered.flatMap_registered
  have hsplit : options.allPlugins = options.pluginsAt .pre ++ Props.plugin ::
      (builtinPlugins.tail ++ options.pluginsAt .post ++ [Instance.plugin]) := by
    simp [Options.allPlugins, builtinPlugins]
  -- The plugins in front leave the access alone, and that of the props is the next one.
  have hfront : ((options.pluginsAt .pre).flatMap (·.visit options.settings
      ⟨access.name, access.use, some Props.tag, script.textAt access.span⟩)).findSome?
        Fragment.replacement? = none := by
    refine List.findSome?_eq_none_iff.mpr fun f hf => ?_
    obtain ⟨p, hp, hf⟩ := List.mem_flatMap.mp hf
    have hnone := List.any_eq_false.mp (hpre p hp access.use (script.textAt access.span))
    rw [← hname] at hnone
    exact Option.not_isSome_iff_eq_none.mp (hnone f hf)
  have hfirst : firstReplacement? asked = some ("props." ++ name) := by
    rw [firstReplacement?, hflat, hplugins, hsplit, List.flatMap_append, List.findSome?_append,
      hfront, List.flatMap_cons, List.findSome?_append]
    show ((Props.visit options.settings _).findSome? Fragment.replacement?).or _ = _
    rw [hname, visit_props]
    rfl
  rw [hedits, hfirst, Access.replaced, hname]
  rfl

/-- Each access to a prop has its edit, in the order of the accesses. -/
theorem recorded_resolveMembers_prop {access : Access} {name : String}
    (hname : access.name = some name) (htag : registry.source? name = some Props.tag)
    (hpre : LeavesProp options.settings name (options.pluginsAt .pre)) {excluded : List Span}
    {before after : List Access}
    (hsplit : script.accessesOutside excluded = before ++ access :: after) :
    ∃ later, (resolveMembers script registry options.allPlugins options.settings
        excluded).edits.recorded
      = (before.foldl (Resolved.resolve script registry options.allPlugins options.settings)
          {}).edits.recorded ++ ⟨access.span, "props." ++ name⟩ :: later := by
  obtain ⟨later, hlater⟩ :=
    exists_recorded_foldl_resolve script registry options.allPlugins options.settings after
      ((before.foldl (Resolved.resolve script registry options.allPlugins options.settings)
        {}).resolve script registry options.allPlugins options.settings access)
  refine ⟨later, ?_⟩
  rw [resolveMembers, hsplit, List.foldl_append, List.foldl_cons, hlater,
    recorded_resolve_prop hname htag hpre, List.append_assoc]
  rfl

/-! ## What is registered -/

/-- The names that the props option declares are registered under the tag of the props. -/
theorem source?_prop {object : Script.Tree} {pass : OptionsPass}
    (hpass : transformOptions script object options.allPlugins options.settings = .ok pass)
    (hdestructures : options.settings.destructuresProps = false) {property value : Script.Tree}
    (hproperty : property ∈ object.parts) (hoption : property.option? = some ("props", value))
    {name : String} (hname : name ∈ (ComponentOption.mk "props" value script).declared.names) :
    pass.registry.source? name = some Props.tag := by
  obtain ⟨hnodup, hanswers, -, hentries⟩ := of_transformOptions hpass
  rw [← hentries] at hnodup
  have hplugin : Props.plugin ∈ options.allPlugins := by simp [Options.allPlugins, builtinPlugins]
  obtain ⟨place, hplace⟩ := List.mem_iff_getElem?.mp hplugin
  have hcall : ⟨Props.plugin, place, ⟨"props", value, script⟩⟩
      ∈ optionCalls script object options.allPlugins options.settings :=
    mem_optionCalls_of_includes hproperty hoption (List.mem_zipIdx_iff_getElem?.mpr hplace) rfl
  obtain ⟨output, hanswer⟩ := hanswers _ hcall
  have hfragment : Fragment.property name Props.tag false ∈ output.fragments := by
    have hmem := mem_fragments_props hanswer hname
    rwa [hdestructures] at hmem
  have hrecord : (name, ⟨Props.tag, false⟩) ∈ pass.registry.entries := by
    rw [hentries]
    exact Call.mem_records hcall hanswer hfragment rfl
  rw [Registry.source?, (Registry.get?_eq_some_iff hnodup).mpr hrecord]
  rfl

end

/-- Where props are not destructured, the props option registers its names, and every
access to one of them is replaced, in its turn, by the access to the prop: by a member
expression whose key is the name, as long as the name is an identifier. -/
theorem transformOptions_readsProp [Script.Reader] {script : Script} {options : Options}
    {object : Script.Tree} {pass : OptionsPass}
    (hpass : transformOptions script object options.allPlugins options.settings = .ok pass)
    (hdestructures : options.settings.destructuresProps = false) {property value : Script.Tree}
    (hproperty : property ∈ object.parts) (hoption : property.option? = some ("props", value))
    {name : String} (hname : name ∈ (ComponentOption.mk "props" value script).declared.names)
    (hpre : LeavesProp options.settings name (options.pluginsAt .pre))
    (hidentifier : isIdentifier name = true) :
    pass.registry.source? name = some Props.tag ∧
      (∀ (code : Script) (excluded : List Span) (before : List Access) (access : Access)
        (after : List Access), code.accessesOutside excluded = before ++ access :: after →
        access.name = some name →
        ∃ later, (resolveMembers code pass.registry options.allPlugins options.settings
            excluded).edits.recorded
          = (before.foldl (Resolved.resolve code pass.registry options.allPlugins
              options.settings) {}).edits.recorded
            ++ ⟨access.span, memberAccess "props" name⟩ :: later) ∧
      (IsName name → ∀ dialect, Script.read dialect (memberAccess "props" name)
        = .ok ⟨memberAccess "props" name, dialect, Script.memberTree "props" name⟩) := by
  have htag := source?_prop hpass hdestructures hproperty hoption hname
  rw [(memberAccess_eq_dot_iff "props" name).mpr hidentifier]
  refine ⟨htag, ?_, ?_⟩
  · intro code excluded before access after hsplit haccess
    exact recorded_resolveMembers_prop haccess htag hpre hsplit
  · intro hlexed dialect
    exact Script.read_member dialect (by decide) (by decide) hlexed

/-! ## One prop -/

/-- Options that read props behind `props`. -/
def undestructured : Options := { settings := { propsDestructure := false } }

/-- Whether a props option of an object declares a name. -/
def declaresProp (script : Script) (object : Script.Tree) (name : String) : Bool :=
  object.parts.any fun property => property.option?.any fun (option, value) =>
    option == "props" && (ComponentOption.mk "props" value script).declared.names.contains name

theorem transformOptions_readsProp_count :
    let source := "export default \x7b props: ['count'] \x7d"
    ∃ script object pass, passOver undestructured source = some (script, object, pass) ∧
      pass.registry.source? "count" = some Props.tag ∧
      Script.read {} "props.count" = .ok ⟨"props.count", {}, Script.memberTree "props" "count"⟩ := by
  intro source
  have hdeclares : (passOver undestructured source).map (fun p => declaresProp p.1 p.2.1 "count")
      = some true := by
    decide +kernel
  obtain ⟨⟨script, object, pass⟩, hpass, hdeclares⟩ := Option.map_eq_some_iff.mp hdeclares
  obtain ⟨property, hproperty, hoption⟩ := List.any_eq_true.mp hdeclares
  obtain ⟨⟨option, value⟩, hoption, hname⟩ := (Option.any_eq_true ..).mp hoption
  obtain ⟨rfl, hname⟩ : option = "props" ∧ _ := by simpa using hname
  obtain ⟨htag, -, hread⟩ := transformOptions_readsProp (transformOptions_of_passOver hpass) rfl
    hproperty hoption (List.contains_iff_mem.mp hname) nofun rfl
  exact ⟨script, object, pass, hpass, htag, hread (by decide) {}⟩

/-- A prop whose name is no identifier is not read: what is written for an access to it
subtracts from another prop. -/
theorem resolveMembers_subtracts :
    let source := "export default \x7b props: ['foo-bar'] \x7d"
    (∃ script object pass code, passOver undestructured source = some (script, object, pass) ∧
      declaresProp script object "foo-bar" = true ∧
      pass.registry.source? "foo-bar" = some Props.tag ∧
      Script.read {} "this['foo-bar']" = .ok code ∧
      (code.accessesOutside []).map (·.name) = [some "foo-bar"] ∧
      (resolveMembers code pass.registry undestructured.allPlugins undestructured.settings
        []).edits.recorded = [⟨⟨0, 15⟩, "props.foo-bar"⟩]) ∧
      memberAccess "props" "foo-bar" = "props['foo-bar']" ∧
      ∃ written, Script.read {} "props.foo-bar" = .ok written ∧
        (written.items.flatMap (·.parts)).map (·.kind) = [.expression] ∧
        ((written.items.flatMap (·.parts)).flatMap (·.parts)).map (·.kind)
          = [.member, .ident "bar"] := by
  intro source
  have hwritten : (Script.read {} "props.foo-bar").toOption.map (fun written =>
      ((written.items.flatMap (·.parts)).map (·.kind),
        ((written.items.flatMap (·.parts)).flatMap (·.parts)).map (·.kind)))
      = some ([.expression], [.member, .ident "bar"]) := by
    decide +kernel
  obtain ⟨written, hwritten, hkinds⟩ := Option.map_eq_some_iff.mp hwritten
  refine ⟨?_, by decide +kernel, written, eq_ok_of_toOption hwritten, Prod.mk.inj hkinds⟩
  have hrun : ((passOver undestructured source).bind fun (script, object, pass) =>
      (Script.read {} "this['foo-bar']").toOption.map fun code =>
        (declaresProp script object "foo-bar", pass.registry.source? "foo-bar",
          (code.accessesOutside []).map (·.name), (resolveMembers code pass.registry
            undestructured.allPlugins undestructured.settings []).edits.recorded))
      = some (true, some Props.tag, [some "foo-bar"], [⟨⟨0, 15⟩, "props.foo-bar"⟩]) := by
    decide +kernel
  obtain ⟨⟨script, object, pass⟩, hpass, hcode⟩ := Option.bind_eq_some_iff.mp hrun
  obtain ⟨code, hread, hcode⟩ := Option.map_eq_some_iff.mp hcode
  simp only [Prod.mk.injEq] at hcode
  obtain ⟨hdeclares, htag, hnames, hedits⟩ := hcode
  exact ⟨script, object, pass, code, hpass, hdeclares, htag, eq_ok_of_toOption hread,
    hnames, hedits⟩

end Recompose
