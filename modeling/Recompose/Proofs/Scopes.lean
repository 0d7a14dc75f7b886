import Recompose.Composition
import Recompose.Proofs.Resolution

/-!
# Rewritten accesses and the scopes around them

What is written for an access starts with an identifier. Which one it is depends
on the name that is accessed, on its tag and on how it is used, and never on what
is declared around the access. So an access is captured where a scope between it
and the bindings of the first pass declares that identifier.
-/

namespace Recompose

open Script (Tree)

/-! ## What scopes declare -/

mutual

/-- The names that a pattern or a parameter binds. -/
def boundNames : Tree → List String
  | .node (.ident name) _ _ => [name]
  | .node .arrayPattern _ parts | .node .objectPattern _ parts => boundNamesOfAll parts
  | .node .patternProperty _ [_, pattern] => boundNames pattern
  | .node .patternShorthand _ (pattern :: _) | .node .defaultPattern _ (pattern :: _)
  | .node .restPattern _ (pattern :: _) | .node (.param _) _ (pattern :: _) => boundNames pattern
  | _ => []

def boundNamesOfAll : List Tree → List String
  | [] => []
  | t :: ts => boundNames t ++ boundNamesOfAll ts

end

/-- The names that a variable declaration binds. -/
def variableNames (declarators : List Tree) : List String :=
  declarators.flatMap fun d => (d.parts.head?.map boundNames).getD []

/-- The names that a statement declares where it stands. -/
def declaredNames : Tree → List String
  | .node (.declaration _) _ declarators => variableNames declarators
  | .node (.function _ _) _ (.node (.ident name) _ _ :: _) => [name]
  | .node .classDef _ (.node (.ident name) _ _ :: _) => [name]
  | _ => []

mutual

/-- The names that `var` declares in a statement, at any depth but not in functions
inside of it. -/
def varNames : Tree → List String
  | .node (.declaration .viaVar) _ declarators => variableNames declarators
  | .node .block _ parts | .node .statement _ parts | .node .forStmt _ parts
  | .node .switchStmt _ parts | .node .catchClause _ parts => varNamesOfAll parts
  | _ => []

def varNamesOfAll : List Tree → List String
  | [] => []
  | t :: ts => varNames t ++ varNamesOfAll ts

end

/-- Whether a tree is a parameter. -/
def isParam (t : Tree) : Bool := t.param?.isSome

/-- The names that a tree declares for what is inside of it: a block or a loop by
its statements, the handler of an error by its pattern, and what has parameters by
those. -/
def scopeNames : Tree → List String
  | .node .block _ parts => parts.flatMap declaredNames ++ varNamesOfAll parts
  | .node .forStmt _ parts | .node .switchStmt _ parts => parts.flatMap declaredNames
  | .node .catchClause _ [pattern, _] => boundNames pattern
  | .node _ _ parts => (parts.filter isParam).flatMap boundNames

/-- The trees around something whose names it sees. A computed key does not see the
parameters of what it is the key of. -/
def seenScopes : List Tree → List Tree
  | .node .computedKey _ _ :: _ :: ts => seenScopes ts
  | t :: ts => t :: seenScopes ts
  | [] => []

/-- Where the body of the setup function of a script starts. -/
def Script.setupStart? (script : Script) : Option Nat :=
  script.component.toOption.join.bind setupBodyStart?

/-- Whether a tree is what holds the bindings of the first pass: the script, or the
body of its setup function. -/
def Script.holdsBindings (script : Script) (settings : Settings) (t : Tree) : Bool :=
  t.kind == .program ||
    (!settings.scriptSetup && t.kind == .block && script.setupStart? == some (t.span.start + 1))

/-- The names that are declared between a site and the bindings of the first pass. -/
def Site.namesAround (script : Script) (settings : Settings) (s : Site) : List String :=
  (seenScopes (s.around.takeWhile (!script.holdsBindings settings ·))).flatMap scopeNames

/-! ## What texts start with -/

def leadingIdentifier (text : String) : String :=
  String.ofList (text.toList.takeWhile isIdentifierPart)

/-- A text at a site starts with a name that is declared in between. -/
def Site.IsCaptured (script : Script) (settings : Settings) (s : Site) (text : String) : Prop :=
  leadingIdentifier text ∈ s.namesAround script settings

/-- The names that replacements start with, apart from the accessed one. -/
def helperNames : List String := ["props", "emit", "router", "route", "instance", "unref"]

/-- The identifier that a replacement starts with. -/
def Replacement.head : Replacement → String
  | bare name | value name => leadingIdentifier name
  | prop _ => "props"
  | unref _ => "unref"
  | emit => "emit"
  | router => "router"
  | route => "route"
  | fallback _ => "instance"

theorem leadingIdentifier_eq {text front : String} {c : Char} {cs : List Char}
    (htext : text.toList = front.toList ++ c :: cs) (hc : isIdentifierPart c = false) :
    leadingIdentifier text = leadingIdentifier front := by
  unfold leadingIdentifier
  rw [htext]
  generalize front.toList = ts
  induction ts with
  | nil => simp [hc]
  | cons t ts ih =>
      by_cases ht : isIdentifierPart t = true
      · simpa [ht] using ih
      · simp [ht]

theorem leadingIdentifier_text (r : Replacement) : leadingIdentifier r.text = r.head := by
  have hdot : isIdentifierPart '.' = false := by decide
  have hinstance : leadingIdentifier "instance" = "instance" := by decide
  cases r with
  | bare name => rfl
  | value name => exact leadingIdentifier_eq String.toList_append hdot
  | prop name =>
      have hprops : leadingIdentifier "props" = "props" := by decide
      have htext : (Replacement.prop name).text.toList = "props".toList ++ '.' :: name.toList := by
        rw [Replacement.text, String.toList_append]
        rfl
      rw [leadingIdentifier_eq htext hdot]
      exact hprops
  | unref name =>
      have hunref : leadingIdentifier "unref" = "unref" := by decide
      have hparen : isIdentifierPart '(' = false := by decide
      have htext : (Replacement.unref name).text.toList
          = "unref".toList ++ '(' :: (name.toList ++ ")".toList) := by
        simp only [Replacement.text, String.toList_append, List.append_assoc]
        rfl
      rw [leadingIdentifier_eq htext hparen]
      exact hunref
  | emit => decide
  | router => decide
  | route => decide
  | fallback name =>
      have htext : ∃ cs, (Replacement.fallback name).text.toList
          = "instance".toList ++ '.' :: cs := by
        cases name with
        | none => exact ⟨"proxy".toList, rfl⟩
        | some name =>
            rw [Replacement.text, memberAccess]
            split
            all_goals
              simp only [String.toList_append, List.append_assoc]
              exact ⟨_, rfl⟩
      obtain ⟨cs, htext⟩ := htext
      rw [leadingIdentifier_eq htext hdot]
      exact hinstance

/-- A replacement starts with a helper or with the accessed name. -/
theorem head_of_replacementFor? {use : AccessUse} {registered : Option Provenance}
    {name : Option String} {r : Replacement} (h : replacementFor? use registered name = some r) :
    r.head ∈ helperNames ∨ ∃ n, name = some n ∧ r.head = leadingIdentifier n := by
  rcases replacementFor?_cases h with ⟨n, rfl, -, form, hform, rfl⟩ | ⟨-, rfl⟩ | ⟨-, rfl⟩ |
    ⟨-, rfl⟩ | ⟨-, rfl⟩
  · simp only [namedForms, List.mem_cons, List.not_mem_nil, or_false] at hform
    rcases hform with rfl | rfl | rfl | rfl
    · exact .inr ⟨n, rfl, rfl⟩
    · exact .inr ⟨n, rfl, rfl⟩
    · exact .inl (by simp [Replacement.head, helperNames])
    · exact .inl (by simp [Replacement.head, helperNames])
  all_goals exact .inl (by simp [Replacement.head, helperNames])

/-! ## Capture -/

/-- What is written at a site, and when it is captured. -/
structure Site.IsWritten (script : Script) (registry : Registry) (settings : Settings) (s : Site)
    (e : Edit) : Prop where
  span : e.span = s.replaced
  /-- The accessed name, its tag and its use choose the text, and with it the name
  that may be captured. -/
  captured_iff : ∃ use r, s.access use ∈ accesses .other script.tree ∧
    replacementFor? use (s.name?.bind registry.source?) s.name? = some r ∧ e.text = r.text ∧
    (s.IsCaptured script settings e.text ↔ r.head ∈ s.namesAround script settings)
  /-- Only helpers and the accessed name are captured. -/
  declared_of_captured : s.IsCaptured script settings e.text →
    ∃ x ∈ s.namesAround script settings,
      x ∈ helperNames ∨ ∃ name, s.name? = some name ∧ x = leadingIdentifier name

/-- No replaced access is captured. -/
def IsCaptureFree (script : Script) (registry : Registry) (settings : Settings)
    (excluded : List Span) : Prop :=
  ∀ s ∈ script.sitesOutside excluded,
    ∀ e ∈ (resolveMembers script registry (Options.allPlugins ⟨settings, []⟩) settings
        excluded).edits.recorded,
      e.span = s.replaced → ¬ s.IsCaptured script settings e.text

instance (script : Script) (settings : Settings) (s : Site) (text : String) :
    Decidable (s.IsCaptured script settings text) :=
  inferInstanceAs (Decidable (_ ∈ _))

instance (script : Script) (registry : Registry) (settings : Settings) (excluded : List Span) :
    Decidable (IsCaptureFree script registry settings excluded) :=
  inferInstanceAs (Decidable (∀ s ∈ _, ∀ e ∈ _, _ → _))

end Recompose
