import Recompose.OptionsPass
import Recompose.Plugin.All

/-!
# Where the errors of the first pass come from

Plugins that are built in fail on options that are functions, and only with an
error that tells what is wrong with the function. Any other kind of error of the
pass is about a name that was registered before, or is the answer of a plugin
that is not built in.
-/

namespace Recompose

/-! ## Results with errors -/

theorem mapError_ok {α ε δ : Type} (f : ε → δ) (a : α) :
    (Except.ok a).mapError f = .ok a := rfl

theorem mapError_error {α ε δ : Type} (f : ε → δ) (err : ε) :
    (Except.error err : Except ε α).mapError f = .error (f err) := rfl

theorem mapError_bind {α β ε δ : Type} (r : Except ε α) (f : α → Except ε β) (g : ε → δ) :
    (r >>= f).mapError g = r.mapError g >>= fun a => (f a).mapError g := by
  cases r <;> rfl

theorem eq_ok_of_mapError {α ε δ : Type} {r : Except ε α} {f : ε → δ} {a : α}
    (h : r.mapError f = .ok a) : r = .ok a := by
  cases r with
  | error err => cases h
  | ok b =>
      cases h
      rfl

theorem exists_of_bind_eq_ok {α β ε : Type} {r : Except ε α} {f : α → Except ε β} {b : β}
    (h : (r >>= f) = .ok b) : ∃ a, r = .ok a ∧ f a = .ok b := by
  cases r with
  | error err => cases h
  | ok a => exact ⟨a, rfl, h⟩

/-- What holds before a fold and is kept by its steps holds after it. -/
theorem foldlM_keeps {α β ε : Type} {I : β → Prop} {f : β → α → Except ε β} {l : List α} {b b' : β}
    (h : I b) (hstep : ∀ b b', ∀ a ∈ l, I b → f b a = .ok b' → I b')
    (hfold : l.foldlM f b = .ok b') : I b' := by
  induction l generalizing b with
  | nil =>
      cases hfold
      exact h
  | cons a l ih =>
      rw [List.foldlM_cons] at hfold
      obtain ⟨next, hnext, hrest⟩ := exists_of_bind_eq_ok hfold
      have hnext' := hstep b next a (List.mem_cons_self ..) h hnext
      exact ih hnext' (fun b b' a ha => hstep b b' a (List.mem_cons_of_mem _ ha)) hrest

/-- All errors that the result can be are in `Q`. -/
def Faults {α : Type} (Q : TransformError → Prop) (r : Except TransformError α) : Prop :=
  ∀ e, r = .error e → Q e

namespace Faults

variable {α β ε : Type} {Q Q' : TransformError → Prop}

theorem ok (a : α) : Faults Q (.ok a) := nofun

theorem error {e : TransformError} (h : Q e) : Faults Q (.error e : Except TransformError α) := by
  rintro _ ⟨⟩
  exact h

theorem of_eq_ok {r : Except TransformError α} (h : ∃ a, r = .ok a) : Faults Q r := by
  obtain ⟨a, rfl⟩ := h
  exact .ok a

theorem mono {r : Except TransformError α} (h : Faults Q r) (hQ : ∀ e, Q e → Q' e) : Faults Q' r :=
  fun e he => hQ e (h e he)

theorem bind {r : Except TransformError α} {f : α → Except TransformError β} (h : Faults Q r)
    (hf : ∀ a, r = .ok a → Faults Q (f a)) : Faults Q (r >>= f) := by
  intro e he
  cases hr : r with
  | error err =>
      rw [hr] at he h
      cases he
      exact h e rfl
  | ok a =>
      rw [hr] at he
      exact hf a hr e he

theorem mapError {r : Except ε α} {f : ε → TransformError} (h : ∀ err, r = .error err → Q (f err)) :
    Faults Q (r.mapError f) := by
  intro e he
  cases r with
  | error err =>
      cases he
      exact h err rfl
  | ok a => cases he

theorem foldlM {f : β → α → Except TransformError β} {l : List α} {b : β}
    (h : ∀ b, ∀ a ∈ l, Faults Q (f b a)) : Faults Q (l.foldlM f b) := by
  induction l generalizing b with
  | nil => exact .ok b
  | cons a l ih =>
      rw [List.foldlM_cons]
      refine .bind (h b a (List.mem_cons_self ..)) fun b' _ => ?_
      exact ih fun b a ha => h b a (List.mem_cons_of_mem _ ha)

end Faults

/-- Causes that the library finds in a script or in the code made from one: none
of a component file, and none of recorded edits. -/
def TransformError.IsOfScript : TransformError → Prop
  | component _ | scriptSetupExists _ | edit _ => False
  | scriptParse _ | invalidDefaultExport _ | missingReturn _ _ | returnNotObject _ _
  | duplicateProperty _ | reparse _ => True

/-! ## Plugins -/

/-- A plugin answers some option of the script with the error. -/
def Plugin.Fails (plugin : Plugin) (script : Script) (e : TransformError) : Prop :=
  ∃ settings name value, plugin.includes settings ⟨name, value, script⟩ = true ∧
    plugin.transform settings ⟨name, value, script⟩ = .error e

/-- A plugin answers some option of the script with the edit error. -/
def Plugin.Raises (plugin : Plugin) (script : Script) (e : EditError) : Prop :=
  ∃ settings name value, plugin.includes settings ⟨name, value, script⟩ = true ∧
    plugin.transform settings ⟨name, value, script⟩ = .error (.edit e)

/-- What an option that is a function lacks, told at the value of the option. -/
def TransformError.IsOfOption (o : ComponentOption) : TransformError → Prop
  | missingReturn _ s | returnNotObject _ s => s = o.value.span
  | component _ | scriptParse _ | invalidDefaultExport _ | scriptSetupExists _
  | duplicateProperty _ | edit _ | reparse _ => False

theorem TransformError.IsOfOption.isOfScript {o : ComponentOption} {e : TransformError}
    (h : e.IsOfOption o) : e.IsOfScript := by
  cases e <;> first | exact trivial | exact h.elim

theorem faults_returnedObject (o : ComponentOption) (option : String) (f : Script.Callable) :
    Faults (TransformError.IsOfOption o) (o.returnedObject option f) := by
  have hsplit : Faults (TransformError.IsOfOption o) (o.splitReturn option f) := by
    unfold ComponentOption.splitReturn
    split
    · split
      · exact .ok _
      · exact .error rfl
    · exact .ok _
    · exact .ok _
  refine .bind hsplit fun ⟨before, returned⟩ _ => ?_
  cases returned with
  | none => exact .error rfl
  | some object =>
      show Faults _ (if _ then _ else _)
      split
      · exact .ok _
      · exact .error rfl

section

variable (settings : Settings) (o : ComponentOption)

theorem faults_props : Faults (TransformError.IsOfOption o) (Props.transform settings o) := by
  unfold Props.transform
  dsimp only
  split <;> exact .ok _

theorem faults_emits : Faults (TransformError.IsOfOption o) (Emits.transform settings o) := by
  unfold Emits.transform
  dsimp only
  split <;> exact .ok _

theorem faults_setup : Faults (TransformError.IsOfOption o) (Setup.transform settings o) := by
  unfold Setup.transform
  split
  · exact .ok _
  · exact .bind (faults_returnedObject o _ _) fun _ _ => .ok _

theorem faults_data : Faults (TransformError.IsOfOption o) (Data.transform settings o) := by
  unfold Data.transform
  split
  · exact .bind (faults_returnedObject o _ _) fun _ _ => .ok _
  · exact .ok _
  · exact .ok _

theorem faults_computed : Faults (TransformError.IsOfOption o) (Computed.transform settings o) := by
  unfold Computed.transform
  split <;> exact .ok _

theorem faults_store : Faults (TransformError.IsOfOption o) (Store.transform settings o) := by
  unfold Store.transform
  split <;> exact .ok _

theorem faults_methods : Faults (TransformError.IsOfOption o) (Methods.transform settings o) := by
  unfold Methods.transform
  split <;> exact .ok _

theorem faults_watch : Faults (TransformError.IsOfOption o) (Watch.transform settings o) := by
  unfold Watch.transform
  split <;> exact .ok _

theorem faults_provide : Faults (TransformError.IsOfOption o) (Provide.transform settings o) := by
  unfold Provide.transform
  split
  · exact .bind (faults_returnedObject o _ _) fun _ _ => .ok _
  · exact .ok _
  · exact .ok _

theorem faults_expose : Faults (TransformError.IsOfOption o) (Expose.transform settings o) := by
  unfold Expose.transform
  dsimp only
  split <;> exact .ok _

end

/-- Only options that are functions fail, for what the function lacks. -/
theorem faults_builtin {plugin : Plugin} (h : plugin ∈ builtinPlugins) (settings : Settings)
    (o : ComponentOption) : Faults (TransformError.IsOfOption o) (plugin.transform settings o) := by
  simp only [builtinPlugins, List.mem_cons, List.not_mem_nil, or_false] at h
  rcases h with rfl | rfl | rfl | rfl | rfl | rfl | rfl | rfl | rfl | rfl | rfl | rfl | rfl | rfl | rfl
  · exact faults_props settings o
  · exact faults_emits settings o
  · exact .ok _
  · exact .ok _
  · exact .ok _
  · exact faults_setup settings o
  · exact faults_data settings o
  · exact faults_computed settings o
  · exact faults_store settings o
  · exact faults_methods settings o
  · exact faults_watch settings o
  · exact .ok _
  · exact .ok _
  · exact faults_provide settings o
  · exact faults_expose settings o

/-- A plugin that is not built in answers some option of the script with the
error. -/
def Options.Fails (options : Options) (script : Script) (e : TransformError) : Prop :=
  ∃ plugin ∈ options.plugins, plugin.2.Fails script e

/-- A plugin that is not built in answers some option of the script with the
edit error. -/
def Options.Raises (options : Options) (script : Script) (e : EditError) : Prop :=
  ∃ plugin ∈ options.plugins, plugin.2.Raises script e

/-- The library finds the error itself, or a plugin that is not built in answers
with it. -/
def Options.Explains (options : Options) (script : Script) (e : TransformError) : Prop :=
  e.IsOfScript ∨ options.Fails script e

/-- A plugin that runs is not built in, or it only fails on options that are
functions. -/
theorem given_or_faults {options : Options} {plugin : Plugin} (h : plugin ∈ options.allPlugins) :
    (∃ p ∈ options.plugins, p.2 = plugin) ∨
      ∀ settings o, Faults (TransformError.IsOfOption o) (plugin.transform settings o) := by
  have hat : ∀ order, plugin ∈ options.pluginsAt order → ∃ p ∈ options.plugins, p.2 = plugin := by
    intro order hat
    obtain ⟨p, hp, rfl⟩ := List.mem_map.mp hat
    exact ⟨p, (List.mem_filter.mp hp).1, rfl⟩
  unfold Options.allPlugins at h
  simp only [List.mem_append, List.mem_singleton] at h
  rcases h with ((h | h) | h) | rfl
  · exact .inl (hat .pre h)
  · exact .inr (faults_builtin h)
  · exact .inl (hat .post h)
  · exact .inr fun _ _ => .ok _

theorem explains_of_allPlugins {options : Options} {script : Script} {e : TransformError}
    {plugin : Plugin} (hmem : plugin ∈ options.allPlugins) (h : plugin.Fails script e) :
    options.Explains script e := by
  rcases given_or_faults hmem with ⟨p, hp, rfl⟩ | hfaults
  · exact .inr ⟨p, hp, h⟩
  · obtain ⟨settings, name, value, -, herr⟩ := h
    exact .inl (hfaults settings _ e herr).isOfScript

/-! ## The pass over the options -/

theorem faults_take [Script.Reader] (pass : OptionsPass) (plugin : Nat) (fragment : Fragment) :
    Faults TransformError.IsOfScript (pass.take plugin fragment) := by
  unfold OptionsPass.take
  dsimp only
  split
  · refine .bind ?_ fun _ _ => .ok _
    unfold Registry.register
    split
    · exact .error trivial
    · exact .ok _
  · exact .ok _

theorem faults_run [Script.Reader] {script : Script} (settings : Settings) (name : String)
    (value : Script.Tree) (p : OptionsPass.Progress) (plugin : Plugin × Nat) :
    Faults (fun e => e.IsOfScript ∨ plugin.1.Fails script e)
      (p.run settings ⟨name, value, script⟩ plugin) := by
  unfold OptionsPass.Progress.run
  split
  · rename_i hincludes
    refine .bind (fun e he => .inr ⟨settings, name, value, hincludes, he⟩) fun output _ => ?_
    refine .bind (.foldlM fun pass f _ => ?_) fun _ _ => .ok _
    exact (faults_take pass _ f).mono fun _ => .inl
  · exact .ok p

/-- Every error of the pass is explained. -/
theorem faults_transformOptions [Script.Reader] (script : Script) (object : Script.Tree)
    (options : Options) (settings : Settings) :
    Faults (options.Explains script)
      (transformOptions script object options.allPlugins settings) := by
  refine .foldlM fun pass property _ => ?_
  unfold OptionsPass.step
  dsimp only
  split
  · exact .ok _
  · rename_i name value _
    refine .bind (.foldlM fun p plugin hplugin => ?_) fun progress _ => ?_
    · have hmem : plugin.1 ∈ options.allPlugins := List.fst_mem_of_mem_zipIdx hplugin
      refine (faults_run settings name value p plugin).mono fun e he => ?_
      exact he.elim .inl (explains_of_allPlugins hmem)
    · split <;> exact .ok _

end Recompose
