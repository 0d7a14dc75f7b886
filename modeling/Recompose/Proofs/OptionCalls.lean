import Recompose.Proofs.Collected
import Recompose.Proofs.OptionsPass
import Recompose.Proofs.Registration
import Recompose.Script.Component

/-!
# The first pass as a list of calls

A plugin is called for every option that it includes: options in source order,
the plugins of one option in the order of their set. What the pass does is told
by these calls. It registers the names in the answers one after the other, up to
the first call that fails (`foldlM_step`). A pass that succeeds has collected
the fragments of all answers, each once, and what it keeps of an option depends
on the last disposition of its calls.
-/

namespace Recompose

/-- A plugin that transforms an option, with the place of the plugin in its
set. -/
structure Call where
  plugin : Plugin
  place : Nat
  option : ComponentOption

/-- The name that a fragment registers, with its record. -/
def Fragment.registration? : Fragment → Option (String × PropertyRecord)
  | property name source exposed => some (name, ⟨source, exposed⟩)
  | code _ _ | hoist _ _ | replacement _ => none

namespace Call

variable (settings : Settings)

def answer (call : Call) : Except TransformError Output :=
  call.plugin.transform settings call.option

def failure? (call : Call) : Option TransformError :=
  match call.answer settings with
  | .ok _ => none
  | .error e => some e

/-- The fragments of the answer, with the place of the plugin they come from. -/
def fragments (call : Call) : List (Nat × Fragment) :=
  match call.answer settings with
  | .ok output => output.fragments.map (call.place, ·)
  | .error _ => []

def disposition? (call : Call) : Option Disposition :=
  match call.answer settings with
  | .ok output => output.disposition
  | .error _ => none

/-- The calls in front of the first one that fails. -/
def answered (calls : List Call) : List Call :=
  calls.takeWhile fun call => (call.failure? settings).isNone

def firstFailure? (calls : List Call) : Option TransformError :=
  calls.findSome? (·.failure? settings)

def lastDisposition? (calls : List Call) : Option Disposition :=
  (calls.filterMap (·.disposition? settings)).getLast?

/-- The names that the answers register, in the order of the fragments. -/
def records (calls : List Call) : Entries PropertyRecord :=
  (calls.flatMap (·.fragments settings)).filterMap (·.2.registration?)

variable {settings}

theorem failure?_eq_none_iff {call : Call} :
    call.failure? settings = none ↔ ∃ output, call.answer settings = .ok output := by
  unfold failure?
  cases call.answer settings with
  | ok output => exact ⟨fun _ => ⟨output, rfl⟩, fun _ => rfl⟩
  | error e => exact ⟨nofun, nofun⟩

theorem failure?_of_ok {call : Call} {output : Output} (h : call.answer settings = .ok output) :
    call.failure? settings = none := failure?_eq_none_iff.mpr ⟨output, h⟩

theorem answer_of_failure {call : Call} {e : TransformError}
    (h : call.failure? settings = some e) : call.answer settings = .error e := by
  unfold failure? at h
  cases hanswer : call.answer settings with
  | ok output =>
      rw [hanswer] at h
      cases h
  | error e' =>
      rw [hanswer] at h
      cases h
      rfl

/-- Calls behind calls that all answer. -/
theorem answered_append_of_none {front : List Call} (h : firstFailure? settings front = none)
    (back : List Call) :
    answered settings (front ++ back) = front ++ answered settings back := by
  apply List.takeWhile_append_of_pos
  intro call hcall
  rw [List.findSome?_eq_none_iff.mp h call hcall]
  rfl

theorem answered_of_none {calls : List Call} (h : firstFailure? settings calls = none) :
    answered settings calls = calls := by
  have happend := answered_append_of_none h []
  have hnil : answered settings [] = [] := rfl
  rwa [List.append_nil, hnil, List.append_nil] at happend

/-- Calls behind one that fails are not made. -/
theorem answered_append_of_some {front : List Call} {e : TransformError}
    (h : firstFailure? settings front = some e) (back : List Call) :
    answered settings (front ++ back) = answered settings front := by
  obtain ⟨before, call, after, rfl, hcall, hbefore⟩ := List.findSome?_eq_some_iff.mp h
  have hnone : firstFailure? settings before = none := List.findSome?_eq_none_iff.mpr hbefore
  have hstop : ∀ calls, answered settings (call :: calls) = [] := by
    intro calls
    rw [answered, List.takeWhile_cons, hcall]
    rfl
  rw [List.append_assoc, answered_append_of_none hnone, answered_append_of_none hnone,
    List.cons_append, hstop, hstop]

theorem firstFailure?_append (front back : List Call) :
    firstFailure? settings (front ++ back)
      = (firstFailure? settings front).or (firstFailure? settings back) :=
  List.findSome?_append

theorem records_append (front back : List Call) :
    records settings (front ++ back) = records settings front ++ records settings back := by
  unfold records
  rw [List.flatMap_append, List.filterMap_append]

/-- A fragment of an answer that registers a name is among the records. -/
theorem mem_records {calls : List Call} {call : Call} (hcall : call ∈ calls) {output : Output}
    (hanswer : call.answer settings = .ok output) {f : Fragment} (hf : f ∈ output.fragments)
    {p : String × PropertyRecord} (hp : f.registration? = some p) : p ∈ records settings calls := by
  refine List.mem_filterMap.mpr ⟨(call.place, f), List.mem_flatMap.mpr ⟨call, hcall, ?_⟩, hp⟩
  rw [fragments, hanswer]
  exact List.mem_map_of_mem hf

theorem lastDisposition?_cons (call : Call) (calls : List Call) :
    lastDisposition? settings (call :: calls)
      = (lastDisposition? settings calls).or (call.disposition? settings) := by
  unfold lastDisposition?
  cases hcall : call.disposition? settings with
  | none => rw [List.filterMap_cons_none hcall, Option.or_none]
  | some d =>
      rw [List.filterMap_cons_some hcall, List.getLast?_cons]
      cases (calls.filterMap (·.disposition? settings)).getLast? <;> rfl

end Call

namespace OptionsPass

variable (script : Script) (plugins : List Plugin) (settings : Settings)

/-- The calls for an option: one for each plugin that includes it. -/
def callsOf (o : ComponentOption) (plugins : List (Plugin × Nat)) : List Call :=
  (plugins.filter fun p => p.1.includes settings o).map fun p => ⟨p.1, p.2, o⟩

/-- The calls for a property of the options object. -/
def calls (property : Script.Tree) : List Call :=
  match property.option? with
  | some (name, value) => callsOf settings ⟨name, value, script⟩ plugins.zipIdx
  | none => []

/-- What stays of a property: all of it if there is no call, and else what the
last disposition says. -/
def keptTexts (property : Script.Tree) : List String :=
  match property.option? with
  | none => [script.text property]
  | some (name, _) =>
    let calls := calls script plugins settings property
    if calls = [] then [script.text property]
    else kept script property name ((Call.lastDisposition? settings calls).getD .remove)

/-- The pass after some calls, with texts of options that stay and a number of
options that are counted. -/
def after [Script.Reader] (pass : OptionsPass) (calls : List Call) (texts : List String) (n : Nat) :
    Except TransformError OptionsPass := do
  let registry ← pass.registry.registerAll (Call.records settings (Call.answered settings calls))
  match Call.firstFailure? settings calls with
  | some e => .error e
  | none => .ok {
      collected := (calls.flatMap (·.fragments settings)).foldl (fun c p => (c.collect p.1 p.2).1)
        pass.collected
      registry := registry
      preserved := pass.preserved ++ texts
      matched := pass.matched + n }

variable {script plugins settings}

theorem callsOf_cons_of_includes {o : ComponentOption} {plugin : Plugin × Nat}
    (h : plugin.1.includes settings o = true) (more : List (Plugin × Nat)) :
    callsOf settings o (plugin :: more) = ⟨plugin.1, plugin.2, o⟩ :: callsOf settings o more := by
  simp [callsOf, h]

theorem callsOf_cons_of_not_includes {o : ComponentOption} {plugin : Plugin × Nat}
    (h : ¬ plugin.1.includes settings o = true) (more : List (Plugin × Nat)) :
    callsOf settings o (plugin :: more) = callsOf settings o more := by
  simp [callsOf, h]

/-- A plugin includes a property exactly where there is a call for it. -/
theorem includes_iff {property : Script.Tree} :
    includes script plugins settings property = true
      ↔ calls script plugins settings property ≠ [] := by
  unfold includes calls
  cases property.option? with
  | none => simp
  | some option =>
      rw [Option.any_some, ← any_zipIdx]
      simp [callsOf]

variable [Script.Reader] {pass : OptionsPass}

theorem after_nil (texts : List String) (n : Nat) :
    pass.after settings [] texts n
      = .ok { pass with preserved := pass.preserved ++ texts, matched := pass.matched + n } := rfl

/-- What comes after some calls and then some more. -/
theorem after_append (pass : OptionsPass) (settings : Settings) (front back : List Call)
    (texts texts' : List String) (n n' : Nat) :
    pass.after settings (front ++ back) (texts ++ texts') (n + n')
      = pass.after settings front texts n >>= (·.after settings back texts' n') := by
  unfold after
  rw [Call.firstFailure?_append]
  cases hfront : Call.firstFailure? settings front with
  | some e =>
      rw [Call.answered_append_of_some hfront]
      cases pass.registry.registerAll (Call.records settings (Call.answered settings front)) <;> rfl
  | none =>
      rw [Call.answered_append_of_none hfront, Call.answered_of_none hfront, Call.records_append,
        Registry.registerAll_append, List.flatMap_append, List.foldl_append, ← List.append_assoc,
        ← Nat.add_assoc, Option.none_or]
      cases pass.registry.registerAll (Call.records settings front) <;> rfl

theorem take_property (name : String) (source : Provenance) (exposed : Bool) (place : Nat) :
    pass.take place (.property name source exposed)
      = (pass.registry.register name source exposed).map fun registry =>
          { pass with registry := registry } := by
  unfold take
  dsimp only [Collected.collect]
  cases pass.registry.register name source exposed <;> rfl

/-- Taking in the fragments of an answer. -/
theorem foldlM_take (fragments : List Fragment) (place : Nat) :
    fragments.foldlM (fun pass f => pass.take place f) pass
      = (pass.registry.registerAll (fragments.filterMap (·.registration?))).map fun registry =>
          { pass with
            collected := pass.collected.collectAll place fragments
            registry := registry } := by
  induction fragments generalizing pass with
  | nil => rfl
  | cons f fragments ih =>
      rw [List.foldlM_cons]
      cases f with
      | code content priority => exact ih
      | hoist content priority => exact ih
      | replacement content => exact ih
      | property name source exposed =>
          have hrecord : (Fragment.property name source exposed).registration?
              = some (name, ⟨source, exposed⟩) := rfl
          rw [take_property, List.filterMap_cons_some hrecord, Registry.registerAll_cons]
          dsimp only
          cases pass.registry.register name source exposed with
          | error e => rfl
          | ok registry => exact ih

theorem after_of_failure {call : Call} {e : TransformError} (h : call.answer settings = .error e) :
    pass.after settings [call] [] 0 = .error e := by
  have hfailure : call.failure? settings = some e := by rw [Call.failure?, h]
  have hfirst : Call.firstFailure? settings [call] = some e := by
    rw [Call.firstFailure?, List.findSome?_cons, hfailure]
  have hanswered : Call.answered settings [call] = [] := by
    rw [Call.answered, List.takeWhile_cons, hfailure]
    rfl
  rw [after, hfirst, hanswered]
  rfl

theorem after_of_answer {call : Call} {output : Output} (h : call.answer settings = .ok output) :
    pass.after settings [call] [] 0
      = output.fragments.foldlM (fun pass f => pass.take call.place f) pass := by
  have hfirst : Call.firstFailure? settings [call] = none := by
    rw [Call.firstFailure?, List.findSome?_cons, Call.failure?_of_ok h]
    rfl
  have hfragments : call.fragments settings = output.fragments.map (call.place, ·) := by
    rw [Call.fragments, h]
  have hrecords : Call.records settings [call] = output.fragments.filterMap (·.registration?) := by
    rw [Call.records, List.flatMap_singleton, hfragments, List.filterMap_map]
    rfl
  rw [after, Call.answered_of_none hfirst, hfirst, hrecords, foldlM_take, List.flatMap_singleton,
    hfragments, List.foldl_map, List.append_nil]
  cases pass.registry.registerAll (output.fragments.filterMap (·.registration?)) <;> rfl

/-- One call of a plugin that includes the option. -/
theorem run_of_includes {o : ComponentOption} {plugin : Plugin × Nat}
    (h : plugin.1.includes settings o = true) (p : Progress) :
    p.run settings o plugin = (p.pass.after settings [⟨plugin.1, plugin.2, o⟩] [] 0).map fun pass =>
      ⟨pass, (Call.disposition? settings ⟨plugin.1, plugin.2, o⟩).or p.disposition, true⟩ := by
  rw [Progress.run, if_pos h]
  cases hanswer : Call.answer settings ⟨plugin.1, plugin.2, o⟩ with
  | error e =>
      rw [after_of_failure hanswer]
      rw [Call.answer] at hanswer
      rw [hanswer]
      rfl
  | ok output =>
      rw [after_of_answer hanswer, Call.disposition?, hanswer]
      rw [Call.answer] at hanswer
      rw [hanswer]
      dsimp only
      show (output.fragments.foldlM (fun pass f => pass.take plugin.2 f) p.pass >>= _) = _
      cases output.fragments.foldlM (fun pass f => pass.take plugin.2 f) p.pass <;> rfl

/-- All plugins over one option. -/
theorem foldlM_run {o : ComponentOption} (ps : List (Plugin × Nat)) (p : Progress) :
    ps.foldlM (Progress.run settings o) p
      = (p.pass.after settings (callsOf settings o ps) [] 0).map fun pass =>
          ⟨pass, (Call.lastDisposition? settings (callsOf settings o ps)).or p.disposition,
            p.included || !(callsOf settings o ps).isEmpty⟩ := by
  induction ps generalizing p with
  | nil =>
      show Except.ok p = Except.ok _
      simp [callsOf, Call.lastDisposition?]
  | cons plugin ps ih =>
      rw [List.foldlM_cons]
      by_cases hplugin : plugin.1.includes settings o = true
      · have hafter := after_append p.pass settings [⟨plugin.1, plugin.2, o⟩]
          (callsOf settings o ps) [] [] 0 0
        rw [callsOf_cons_of_includes hplugin, run_of_includes hplugin]
        rw [List.singleton_append, List.append_nil, Nat.add_zero] at hafter
        rw [hafter, Call.lastDisposition?_cons]
        cases p.pass.after settings [⟨plugin.1, plugin.2, o⟩] [] 0 with
        | error e => rfl
        | ok pass =>
            show List.foldlM _ _ ps = _
            rw [ih, Bool.true_or, Option.or_assoc]
            simp
            rfl
      · have hrun : p.run settings o plugin = .ok p := by rw [Progress.run, if_neg hplugin]
        rw [callsOf_cons_of_not_includes hplugin, hrun]
        exact ih p

theorem matched_after {pass' : OptionsPass} {calls : List Call} {texts : List String} {n : Nat}
    (h : pass.after settings calls texts n = .ok pass') : pass'.matched = pass.matched + n := by
  unfold after at h
  obtain ⟨registry, -, h⟩ := exists_of_bind_eq_ok h
  cases hfailure : Call.firstFailure? settings calls with
  | some e =>
      rw [hfailure] at h
      cases h
  | none =>
      rw [hfailure] at h
      cases h
      rfl

/-- Texts and counts are added after the calls. -/
theorem after_eq_bind (pass : OptionsPass) (settings : Settings) (calls : List Call)
    (texts : List String) (n : Nat) :
    pass.after settings calls texts n
      = pass.after settings calls [] 0 >>= (·.after settings [] texts n) := by
  have happend := after_append pass settings calls [] [] texts 0 n
  rwa [List.append_nil, List.nil_append, Nat.zero_add] at happend

/-- One property of the options object. -/
theorem step_eq (property : Script.Tree) :
    step script plugins settings pass property
      = pass.after settings (calls script plugins settings property)
          (keptTexts script plugins settings property)
          (if includes script plugins settings property then 1 else 0) := by
  cases hoption : property.option? with
  | none =>
      have hcalls : calls script plugins settings property = [] := by rw [calls, hoption]
      have hincludes := includes_iff.not.mpr (not_not.mpr hcalls)
      rw [step, keptTexts, hoption, hcalls, if_neg hincludes]
      rfl
  | some option =>
      obtain ⟨name, value⟩ := option
      have hcallsOf : callsOf settings ⟨name, value, script⟩ plugins.zipIdx
          = calls script plugins settings property := by rw [calls, hoption]
      rw [step, keptTexts, hoption]
      dsimp only
      rw [foldlM_run]
      dsimp only
      rw [hcallsOf]
      by_cases hcalls : calls script plugins settings property = []
      · have hincludes := includes_iff.not.mpr (not_not.mpr hcalls)
        rw [if_pos hcalls, if_neg hincludes, hcalls, after_nil, List.append_nil]
        rfl
      · rw [if_neg hcalls, if_pos (includes_iff.mpr hcalls),
          after_eq_bind pass settings _ (kept script property name _)]
        cases hpass : pass.after settings (calls script plugins settings property) [] 0 with
        | error e => rfl
        | ok pass' =>
            have hmatched := matched_after hpass
            rw [Nat.add_zero] at hmatched
            have hincluded : (calls script plugins settings property).isEmpty = false :=
              List.isEmpty_eq_false_iff.mpr hcalls
            rw [Option.or_none, hincluded, ← hmatched]
            rfl

/-- All properties of the options object. -/
theorem foldlM_step (properties : List Script.Tree) :
    properties.foldlM (step script plugins settings) pass
      = pass.after settings (properties.flatMap (calls script plugins settings))
          (properties.flatMap (keptTexts script plugins settings))
          (properties.countP (includes script plugins settings)) := by
  induction properties generalizing pass with
  | nil =>
      show Except.ok pass = .ok { pass with preserved := pass.preserved ++ [] }
      rw [List.append_nil]
  | cons property properties ih =>
      rw [List.foldlM_cons, step_eq, List.flatMap_cons, List.flatMap_cons, List.countP_cons,
        Nat.add_comm, after_append]
      simp only [ih]

end OptionsPass

section

variable (script : Script) (object : Script.Tree) (plugins : List Plugin) (settings : Settings)

/-- The calls of a pass: options in source order, the plugins of one option in
the order of their set. -/
def optionCalls : List Call :=
  object.parts.flatMap (OptionsPass.calls script plugins settings)

/-- The names that a pass registers as long as no call fails. -/
def producedRecords : Entries PropertyRecord :=
  Call.records settings (Call.answered settings (optionCalls script object plugins settings))

variable {script object plugins settings}

/-- A call is about an option of the object that its plugin includes. -/
theorem mem_optionCalls {call : Call} (h : call ∈ optionCalls script object plugins settings) :
    ∃ property ∈ object.parts, ∃ name value, property.option? = some (name, value) ∧
      call.plugin ∈ plugins ∧ call.plugin.includes settings ⟨name, value, script⟩ = true ∧
        call.option = ⟨name, value, script⟩ := by
  obtain ⟨property, hproperty, hcall⟩ := List.mem_flatMap.mp h
  refine ⟨property, hproperty, ?_⟩
  unfold OptionsPass.calls at hcall
  split at hcall
  · rename_i name value hoption
    obtain ⟨p, hp, rfl⟩ := List.mem_map.mp hcall
    obtain ⟨hmem, hincludes⟩ := List.mem_filter.mp hp
    exact ⟨name, value, hoption, List.fst_mem_of_mem_zipIdx hmem, hincludes, rfl⟩
  · cases hcall

/-- A plugin that includes an option of the object is called for it. -/
theorem mem_optionCalls_of_includes {property : Script.Tree} (hproperty : property ∈ object.parts)
    {name : String} {value : Script.Tree} (hoption : property.option? = some (name, value))
    {plugin : Plugin} {place : Nat} (hplugin : (plugin, place) ∈ plugins.zipIdx)
    (hincludes : plugin.includes settings ⟨name, value, script⟩ = true) :
    ⟨plugin, place, ⟨name, value, script⟩⟩ ∈ optionCalls script object plugins settings := by
  refine List.mem_flatMap.mpr ⟨property, hproperty, ?_⟩
  rw [OptionsPass.calls, hoption]
  exact List.mem_map.mpr ⟨(plugin, place), List.mem_filter.mpr ⟨hplugin, hincludes⟩, rfl⟩

variable [Script.Reader]

/-- What a pass does, told by its calls. -/
theorem transformOptions_eq :
    transformOptions script object plugins settings = (do
      let registry ← Registry.registerAll {} (producedRecords script object plugins settings)
      match Call.firstFailure? settings (optionCalls script object plugins settings) with
      | some e => .error e
      | none => .ok {
          collected := .ofFragments
            ((optionCalls script object plugins settings).flatMap (·.fragments settings))
          registry := registry
          preserved := object.parts.flatMap (OptionsPass.keptTexts script plugins settings)
          matched := object.parts.countP (OptionsPass.includes script plugins settings) }) := by
  rw [transformOptions, OptionsPass.foldlM_step, OptionsPass.after, List.nil_append, Nat.zero_add]
  rfl

/-- A pass that succeeds has registered no name twice, and no call has failed. -/
theorem of_transformOptions {pass : OptionsPass}
    (h : transformOptions script object plugins settings = .ok pass) :
    (Call.records settings (optionCalls script object plugins settings)).names.Nodup ∧
      (∀ call ∈ optionCalls script object plugins settings,
        ∃ output, call.answer settings = .ok output) ∧
      pass.collected = .ofFragments
        ((optionCalls script object plugins settings).flatMap (·.fragments settings)) ∧
      pass.registry.entries
        = Call.records settings (optionCalls script object plugins settings) := by
  rw [transformOptions_eq] at h
  obtain ⟨registry, hregistry, h⟩ := exists_of_bind_eq_ok h
  obtain ⟨hnodup, rfl⟩ := Registry.registerAll_eq_ok_iff.mp hregistry
  cases hfailure : Call.firstFailure? settings (optionCalls script object plugins settings) with
  | some e =>
      rw [hfailure] at h
      cases h
  | none =>
      rw [hfailure] at h
      cases h
      rw [producedRecords, Call.answered_of_none hfailure] at hnodup ⊢
      refine ⟨hnodup, fun call hcall => ?_, rfl, rfl⟩
      exact Call.failure?_eq_none_iff.mp (List.findSome?_eq_none_iff.mp hfailure call hcall)

/-- A pass fails on a name, or with a call. -/
theorem exists_of_transformOptions_eq_error {e : TransformError}
    (h : transformOptions script object plugins settings = .error e) :
    (∃ name, e = .duplicateProperty name) ∨
      ∃ call ∈ optionCalls script object plugins settings, call.answer settings = .error e := by
  rw [transformOptions_eq] at h
  cases hregistry : Registry.registerAll {} (producedRecords script object plugins settings) with
  | error e' =>
      rw [hregistry] at h
      obtain rfl : e' = e := Except.error.inj h
      obtain ⟨name, -, rfl⟩ := Registry.registerAll_eq_error_iff.mp hregistry
      exact .inl ⟨name, rfl⟩
  | ok registry =>
      rw [hregistry] at h
      cases hfailure : Call.firstFailure? settings (optionCalls script object plugins settings) with
      | none =>
          rw [hfailure] at h
          cases h
      | some e' =>
          rw [hfailure] at h
          obtain rfl : e' = e := Except.error.inj h
          obtain ⟨call, hcall, hfails⟩ := List.exists_of_findSome?_eq_some hfailure
          exact .inr ⟨call, hcall, Call.answer_of_failure hfails⟩

/-- The names of a pass are registered in the order of its fragments, up to the
first call that fails. The first name that repeats an earlier one is the error
of the pass; without one, the error of the first call that fails is; without
either, the registry holds the names as they were produced. -/
theorem transformOptions_registration :
    (∀ e, transformOptions script object plugins settings = .error e ↔
        (∃ name, IsFirstRepeat (producedRecords script object plugins settings).names name ∧
          e = .duplicateProperty name) ∨
        (producedRecords script object plugins settings).names.Nodup ∧
          Call.firstFailure? settings (optionCalls script object plugins settings) = some e) ∧
      ((∃ pass, transformOptions script object plugins settings = .ok pass ∧
          pass.registry.entries = producedRecords script object plugins settings ∧
          (∀ name record, pass.registry.get? name = some record ↔
            (name, record) ∈ producedRecords script object plugins settings) ∧
          pass.registry.exposed
            = ((producedRecords script object plugins settings).filter (·.2.exposed)).map (·.1)) ↔
        (producedRecords script object plugins settings).names.Nodup ∧
          Call.firstFailure? settings (optionCalls script object plugins settings) = none) := by
  rw [transformOptions_eq]
  by_cases hnodup : (producedRecords script object plugins settings).names.Nodup
  · rw [Registry.registerAll_of_nodup hnodup]
    cases Call.firstFailure? settings (optionCalls script object plugins settings) with
    | some e' =>
        refine ⟨fun e => ⟨?_, ?_⟩, nofun, nofun⟩
        · rintro ⟨⟩
          exact .inr ⟨hnodup, rfl⟩
        · rintro (⟨name, hrepeat, -⟩ | ⟨-, ⟨⟩⟩)
          · exact absurd hnodup hrepeat.not_nodup
          · rfl
    | none =>
        refine ⟨fun e => ⟨nofun, ?_⟩, fun _ => ⟨hnodup, rfl⟩, fun _ => ⟨_, rfl, ?_⟩⟩
        · rintro (⟨name, hrepeat, -⟩ | ⟨-, ⟨⟩⟩)
          exact absurd hnodup hrepeat.not_nodup
        · exact ⟨rfl, fun name record => Registry.get?_eq_some_iff hnodup, rfl⟩
  · obtain ⟨name, hname⟩ := exists_isFirstRepeat hnodup
    rw [Registry.registerAll_of_isFirstRepeat hname]
    refine ⟨fun e => ⟨?_, ?_⟩, nofun, fun h => absurd h.1 hnodup⟩
    · rintro ⟨⟩
      exact .inl ⟨name, hname, rfl⟩
    · rintro (hrepeat | ⟨h, -⟩)
      · have herror := Registry.registerAll_eq_error_iff.mpr hrepeat
        rw [Registry.registerAll_of_isFirstRepeat hname] at herror
        cases herror
        rfl
      · exact absurd h hnodup

/-- A pass that succeeds has made every call, and each was answered. What it has
collected are the fragments of all answers, each once and in the order of the
calls, and what it has registered are their names. It has counted the options
that a plugin includes, and kept of each property, in source order, what its
calls leave of it. -/
theorem transformOptions_bookkeeping {pass : OptionsPass}
    (h : transformOptions script object plugins settings = .ok pass) :
    (∀ call ∈ optionCalls script object plugins settings,
        ∃ output, call.answer settings = .ok output) ∧
      pass.collected = .ofFragments
        ((optionCalls script object plugins settings).flatMap (·.fragments settings)) ∧
      pass.registry.entries
        = Call.records settings (optionCalls script object plugins settings) ∧
      pass.matched = object.parts.countP (OptionsPass.includes script plugins settings) ∧
      pass.preserved = object.parts.flatMap (OptionsPass.keptTexts script plugins settings) := by
  rw [transformOptions_eq] at h
  obtain ⟨registry, hregistry, h⟩ := exists_of_bind_eq_ok h
  obtain ⟨-, rfl⟩ := Registry.registerAll_eq_ok_iff.mp hregistry
  cases hfailure : Call.firstFailure? settings (optionCalls script object plugins settings) with
  | some e =>
      rw [hfailure] at h
      cases h
  | none =>
      rw [hfailure] at h
      cases h
      refine ⟨?_, rfl, ?_, rfl, rfl⟩
      · intro call hcall
        exact Call.failure?_eq_none_iff.mp (List.findSome?_eq_none_iff.mp hfailure call hcall)
      · rw [producedRecords, Call.answered_of_none hfailure]

end

/-- A property of an object literal with a name and a number. -/
def numbered (key : Script.Kind) (span : Span) : Script.Tree :=
  .node .keyValue span [.node key span [], .node (.number "1") span []]

/-- An options object with a property of every kind. -/
def mixedObject : Script.Tree :=
  .node .object ⟨0, 71⟩ [.node .spread ⟨2, 8⟩ [], .node .setter ⟨10, 21⟩ [],
    numbered .computedKey ⟨23, 31⟩, numbered (.ident "keep") ⟨33, 40⟩,
    numbered (.string (some "b c")) ⟨42, 50⟩, numbered (.ident "gone") ⟨52, 59⟩,
    numbered (.ident "other") ⟨61, 69⟩]

def mixedScript : Script :=
  ⟨"\x7b ...all, set a(v) \x7b\x7d, [b()]: 0, keep: 1, 'b c': 2, gone: 3, other: 4 \x7d",
    .ofLang? none, mixedObject⟩

/-- Registers the name of the options that it includes. -/
def registering (names : List String) (disposition : Option Disposition) : Plugin :=
  { name := "registering"
    includes := fun _ o => o.name ∈ names
    transform := fun _ o => .ok ⟨[.property o.name "registering" true], disposition⟩ }

/-- Two plugins share an option, and the disposition of the last one counts. -/
def mixedPlugins : List Plugin :=
  [registering ["keep", "gone"] (some .preserve),
    { registering ["b c", "gone"] (some (.replace "5")) with
      transform := fun _ _ => .ok ⟨[.code "later" .effect], some (.replace "5")⟩ },
    { registering ["gone"] none with transform := fun _ _ => .ok ⟨[], some .remove⟩ }]

theorem transformOptions_bookkeeping_mixed :
    ∃ pass, transformOptions mixedScript mixedObject mixedPlugins {} = .ok pass ∧
      pass.matched = 3 ∧
      pass.preserved =
        ["...all", "set a(v) \x7b\x7d", "[b()]: 0", "keep: 1", "'b c': 5", "other: 4"] := by
  cases h : transformOptions mixedScript mixedObject mixedPlugins {} with
  | error e =>
      have hok : (transformOptions mixedScript mixedObject mixedPlugins {}).isOk := by
        decide +kernel
      rw [h] at hok
      cases hok
  | ok pass =>
      obtain ⟨-, -, -, hmatched, hpreserved⟩ := transformOptions_bookkeeping h
      refine ⟨pass, rfl, ?_, ?_⟩
      · rw [hmatched]
        decide +kernel
      · rw [hpreserved]
        decide +kernel

/-! ## Passes over a text -/

/-- The first pass over the component of a script, with the script and the options object. -/
def passOver (options : Options) (source : String) : Option (Script × Script.Tree × OptionsPass) :=
  (Script.read {} source).toOption.bind fun script =>
    script.component.toOption.join.bind fun component =>
      (transformOptions script component.object options.allPlugins options.settings).toOption.map
        fun pass => (script, component.object, pass)

theorem eq_ok_of_toOption {ε α : Type} {x : Except ε α} {a : α} (h : x.toOption = some a) :
    x = .ok a := by
  cases x with
  | ok b => exact congrArg Except.ok (Option.some.inj h)
  | error e => cases h

theorem transformOptions_of_passOver {options : Options} {source : String} {script : Script}
    {object : Script.Tree} {pass : OptionsPass}
    (h : passOver options source = some (script, object, pass)) :
    transformOptions script object options.allPlugins options.settings = .ok pass := by
  obtain ⟨script', -, h⟩ := Option.bind_eq_some_iff.mp h
  obtain ⟨component, -, h⟩ := Option.bind_eq_some_iff.mp h
  obtain ⟨pass', hpass, heq⟩ := Option.map_eq_some_iff.mp h
  obtain ⟨rfl, rfl, rfl⟩ := heq
  exact eq_ok_of_toOption hpass

end Recompose
