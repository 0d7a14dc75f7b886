import Recompose.Plugin.Store
import Recompose.Proofs.Collected
import Recompose.Proofs.Script.Declared

/-!
# The snippets of a store mapping

A mapping hoists two snippets: one declares the variable of its store, and one takes the
keys out of the store, through refs where they are state. Where all names can be written
as such, merging reads both as it should: as a request for the variable and as one for
the properties (`declarations_fragments`).
-/

namespace Recompose.Store

open Script (Chunk EndsName IsName IsOperand IsProperty endsName_nil isNamePart isNameStart
  propertyText)
open Script.Rules (BeginsWord ReadsValue)

/-! ## Names -/

theorem isName_toLower {c : Char} (h : c.isUpper = true) :
    isNameStart c.toLower = true ∧ isNamePart c.toLower = true := by
  have hletters : ∀ n ∈ List.range' 65 26, isNameStart (Char.ofNat n).toLower = true ∧
      isNamePart (Char.ofNat n).toLower = true := by
    decide +kernel
  obtain ⟨hfirst, hlast⟩ : 65 ≤ c.val ∧ c.val ≤ 90 := of_decide_eq_true h
  have hlow : 65 ≤ c.toNat := UInt32.le_iff_toNat_le.mp hfirst
  have hhigh : c.toNat ≤ 90 := UInt32.le_iff_toNat_le.mp hlast
  have hletter := hletters c.toNat (List.mem_range'_1.mpr ⟨hlow, by omega⟩)
  rwa [Char.ofNat_toNat] at hletter

/-- The variable for a store is a name, though it may be one with a meaning of its own. -/
theorem isName_storeVariable {store : String} (h : IsName store) : IsName (storeVariable store) := by
  obtain ⟨hstart, hparts⟩ := h
  have hdefault : IsName (store ++ "Store") := by
    refine ⟨?_, ?_⟩
    · cases hstore : store.toList with
      | nil => simp [hstore] at hstart
      | cons c cs => simpa [hstore] using hstart
    · rw [String.toList_append, List.all_append, hparts]
      decide
  unfold storeVariable
  split
  · rename_i c rest hstore
    split
    · rename_i hupper
      obtain ⟨hlower, hlower'⟩ := isName_toLower hupper
      rw [hstore] at hparts
      refine ⟨by simpa using hlower, ?_⟩
      simp only [List.all_cons, Bool.and_eq_true] at hparts
      simp [hlower', hparts.2.2.2.2]
    · exact hdefault
  · exact hdefault

/-- The names of a mapping can be written in code. -/
structure Mapping.IsWritable (m : Mapping) : Prop where
  store : IsOperand m.store
  notReserved : storeVariable m.store ∉ Script.reservedWords
  notStrict : storeVariable m.store ∉ Script.strictWords
  keys : ∀ pair ∈ m.keys, IsProperty pair

instance (m : Mapping) : Decidable m.IsWritable :=
  decidable_of_iff (IsOperand m.store ∧ storeVariable m.store ∉ Script.reservedWords ∧
      storeVariable m.store ∉ Script.strictWords ∧ ∀ pair ∈ m.keys, IsProperty pair)
    ⟨fun h => ⟨h.1, h.2.1, h.2.2.1, h.2.2.2⟩,
      fun h => ⟨h.store, h.notReserved, h.notStrict, h.keys⟩⟩

theorem Mapping.IsWritable.variable_ {m : Mapping} (h : m.IsWritable) :
    IsOperand (storeVariable m.store) :=
  ⟨isName_storeVariable h.store.isName, h.notReserved, h.notStrict⟩

/-- A store handed over to make refs of its state. -/
def refsOf (name : String) : String := "storeToRefs(" ++ name ++ ")"

/-- What the keys of a mapping are taken out of, for the variable of a store. -/
def taken (s : Settings) (name : String) (isState : Bool) : String :=
  if !isState then name
  else if s.reactivityTransform then "$(" ++ refsOf name ++ ")"
  else refsOf name

/-- State is reassigned where refs are transformed. -/
def mode (s : Settings) (isState : Bool) : Script.BindingMode :=
  if isState && s.reactivityTransform then .viaLet else .viaConst

/-- The request for the variable of a store. -/
def variableRequest (store : String) : DeclarationRequest :=
  ⟨.viaConst, store ++ "()", .name (storeVariable store)⟩

/-- The request for keys of a store. -/
def keysRequest (s : Settings) (store : String) (isState : Bool) (keys : List (String × String)) :
    DeclarationRequest :=
  ⟨mode s isState, taken s (storeVariable store) isState, .properties (keys.map propertyText)⟩

/-! ## Values -/

section

variable {name source : String} {gap rest : List Char}

theorem one_lt_limit (source : String) : 1 < (snippetRules source).limit := by
  simp [snippetRules]

/-- A name is read as a word. -/
theorem beginsWord_name (hname : IsOperand name) (hrest : EndsName rest) :
    BeginsWord source.toList (name.toList ++ rest) := by
  have hchunk : Chunk [] name.toList (.word name false) rest := .name hname.isName hrest
  intro c₀ hc₀
  have hc₀' : c₀.At source.toList ([] ++ (name.toList ++ rest)) := hc₀
  exact ⟨name, hc₀'.kind hchunk⟩

theorem reads_variable (hname : IsOperand name) :
    (snippetRules source).ReadsValue {} source.toList [' '] name.toList [] :=
  Script.Rules.readsValue_name (Nat.lt_of_succ_lt (one_lt_limit source)) hname
    (.blank (.name hname.isName endsName_nil)) (.inl rfl)

theorem reads_call (hname : IsOperand name) (hasync : name ≠ "async") :
    (snippetRules source).ReadsValue {} source.toList [' '] (name ++ "()").toList [] := by
  have hchunk : Chunk [' '] name.toList (.word name false) ['(', ')'] :=
    .blank (.name hname.isName (headNot_cons.mpr (by decide)))
  rw [String.toList_append]
  exact Script.Rules.readsValue_call_nil (one_lt_limit source) hname hasync hchunk (.inl rfl)

theorem toList_refsOf (name : String) :
    (refsOf name).toList = "storeToRefs".toList ++ '(' :: (name.toList ++ [')']) := by
  simp [refsOf]

theorem reads_refsOf_within {dialect : Script.Dialect} {limit depth : Nat} {c : Script.Context}
    (hlimit : 1 < limit) (hname : IsOperand name) (hrest : Script.Rules.ClosesValue rest)
    (hchunk : Chunk gap "storeToRefs".toList (.word "storeToRefs" false)
      ('(' :: (name.toList ++ ')' :: rest))) :
    (Script.rules dialect limit (depth + 1)).ReadsValue c source.toList gap (refsOf name).toList
      rest := by
  have hname' : EndsName (')' :: rest) := headNot_cons.mpr (by decide)
  rw [toList_refsOf]
  have hinner : (Script.rules dialect limit (depth + 1)).assignment
      = (Script.rules dialect limit depth).assignmentExpression := rfl
  refine Script.Rules.readsValue_call_singleton (by simpa using hlimit) hinner (by decide)
    (by decide) hchunk hrest (beginsWord_name hname hname') ?_
  exact Script.Rules.readsValue_name (by simpa using Nat.lt_of_succ_lt hlimit) hname
    (.name hname.isName hname') (.inr ⟨rest, rfl⟩)

theorem reads_refsOf (hname : IsOperand name) :
    (snippetRules source).ReadsValue {} source.toList [' '] (refsOf name).toList [] :=
  reads_refsOf_within (by omega) hname (.inl rfl)
    (.blank (.name (by decide) (headNot_cons.mpr (by decide))))

theorem reads_transformed (hname : IsOperand name) :
    (snippetRules source).ReadsValue {} source.toList [' '] ("$(" ++ refsOf name ++ ")").toList
      [] := by
  have htext : ("$(" ++ refsOf name ++ ")").toList
      = "$".toList ++ '(' :: ((refsOf name).toList ++ [')']) := by
    simp
  have hword : BeginsWord source.toList ((refsOf name).toList ++ ')' :: []) := by
    rw [toList_refsOf, List.append_assoc]
    exact beginsWord_name (by decide) (headNot_cons.mpr (by decide))
  rw [htext]
  refine Script.Rules.readsValue_call_singleton (one_lt_limit source) rfl (by decide) (by decide)
    (.blank (.name (by decide) (headNot_cons.mpr (by decide)))) (.inl rfl) hword ?_
  exact reads_refsOf_within (by omega) hname (.inr ⟨[], rfl⟩)
    (.name (by decide) (headNot_cons.mpr (by decide)))

/-- What keys are taken out of is read as a value. -/
theorem reads_taken (s : Settings) (hname : IsOperand name) (isState : Bool) :
    (snippetRules source).ReadsValue {} source.toList [' '] (taken s name isState).toList [] := by
  unfold taken
  split
  · exact reads_variable hname
  split
  · exact reads_transformed hname
  · exact reads_refsOf hname

end

/-! ## Snippets -/

theorem declarations_hoisting {content : String} {requests : List DeclarationRequest}
    (h : Snippet.ofText content = .declares requests) :
    (Fragment.hoisting content).declarations = requests := by
  simp only [Fragment.hoisting, Fragment.declarations, h]

theorem declarations_variable {store : String} (hstore : IsOperand store)
    (hvariable : IsOperand (storeVariable store)) :
    (Fragment.hoisting ("const " ++ storeVariable store ++ " = " ++ store ++ "()")).declarations
      = [variableRequest store] := by
  by_cases hasync : store = "async"
  -- A call of `async` may be an arrow function at first; there is only one such snippet.
  · rw [hasync]
    decide +kernel
  · rw [String.append_assoc]
    exact declarations_hoisting (ofText_name hvariable rfl (reads_call hstore hasync))

/-- The snippet that takes keys out of a store. -/
def keysSnippet (s : Settings) (store : String) (isState : Bool) (keys : List (String × String)) :
    String :=
  (if isState && s.reactivityTransform then "let" else "const") ++ " " ++ patternText keys ++
    " = " ++ taken s (storeVariable store) isState

theorem declarations_keys (s : Settings) {store : String}
    (hvariable : IsOperand (storeVariable store)) (isState : Bool) {keys : List (String × String)}
    (hne : keys ≠ []) (hkeys : ∀ pair ∈ keys, IsProperty pair) :
    (Fragment.hoisting (keysSnippet s store isState keys)).declarations
      = [keysRequest s store isState keys] := by
  have hkeyword : IsDestructuring (if isState && s.reactivityTransform then "let" else "const")
      (mode s isState) := by
    unfold mode
    cases isState && s.reactivityTransform
    · exact .inl ⟨rfl, rfl⟩
    · exact .inr ⟨rfl, rfl⟩
  exact declarations_hoisting (ofText_properties hkeyword hne hkeys rfl (reads_taken s hvariable _))

theorem declarations_importing_refs :
    (Fragment.importing "pinia" "storeToRefs").declarations = [] := by
  decide +kernel

/-- Of the fragments of a mapping, those that declare something are its two snippets. -/
theorem flatMap_declarations_fragments (s : Settings) (m : Mapping) (isState : Bool) :
    (fragments s m isState).flatMap Fragment.declarations
      = (Fragment.hoisting ("const " ++ storeVariable m.store ++ " = " ++ m.store ++
          "()")).declarations ++
        (Fragment.hoisting (keysSnippet s m.store isState m.keys)).declarations := by
  have hnames : ∀ tag, (m.keys.map fun pair : String × String =>
      Fragment.property pair.2 tag true).flatMap Fragment.declarations = [] := by
    intro tag
    refine List.flatMap_eq_nil_iff.mpr fun f hf => ?_
    obtain ⟨pair, -, rfl⟩ := List.mem_map.mp hf
    rfl
  have hconst : "const" ++ " " = "const " := rfl
  have hlet : "let" ++ " " = "let " := rfl
  have hopening (tail : String) : " \x7d = " ++ ("$(" ++ tail) = " \x7d = $(" ++ tail :=
    (String.append_assoc ..).symm
  have hpattern : patternText m.keys = "\x7b " ++ ", ".intercalate (m.keys.map fun pair =>
      if pair.1 = pair.2 then pair.1 else pair.1 ++ ": " ++ pair.2) ++ " \x7d" := rfl
  cases isState <;> cases hreactivity : s.reactivityTransform <;>
    simp [fragments, keysSnippet, taken, refsOf, hreactivity, hnames, hconst, hlet, hpattern,
      hopening, declarations_importing_refs, List.flatMap_append, String.append_assoc]

theorem declarations_fragments (s : Settings) {m : Mapping} (hm : m.IsWritable) (hne : m.keys ≠ [])
    (isState : Bool) :
    (fragments s m isState).flatMap Fragment.declarations
      = [variableRequest m.store, keysRequest s m.store isState m.keys] := by
  rw [flatMap_declarations_fragments, declarations_variable hm.store hm.variable_,
    declarations_keys s hm.variable_ isState hne hm.keys]
  rfl

end Recompose.Store
