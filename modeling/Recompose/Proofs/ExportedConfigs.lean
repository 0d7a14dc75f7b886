import Recompose.Config
import Recompose.Proofs.Script.HandedObjects

/-!
# Settings of modules

Settings that a module exports as a literal are those of a JSON file with the same value
(`Config.exported_agreesWithJson`), as far as a JSON file may be nested.
-/

namespace Recompose

namespace Script.Tree

open Json (Value)

/-- What is read off the trees of a literal. -/
def IsReadAs (ts : List Tree) : Json.Part → Prop
  | .value v => ts.map (·.json?) = [some v]
  | .items vs => jsonItems ts = vs
  | .fields fs => ∀ read, (Entries.names (read ++ fs)).Nodup → jsonFields read ts = read ++ fs

theorem isReadAs_of_spells {part : Json.Part} {ts : List Tree} (h : Spells part ts)
    (hapart : part.NamesApart) : IsReadAs ts part := by
  induction h with
  | text | null | bool => rfl
  | paren _ _ ih =>
      have hinner := List.cons.inj (ih hapart)
      exact congrArg (· :: []) hinner.1
  | list _ _ ih => exact congrArg (fun vs => [some (Value.list vs)]) (ih hapart)
  | object _ _ ih =>
      have hfields := ih hapart.2 [] hapart.1
      exact congrArg (fun fs => [some (Value.object fs)]) hfields
  | noItem => rfl
  | @item v vs t ts _ _ ih ihs =>
      have hvalue : t.json? = some v := (List.cons.inj (ih hapart.1)).1
      show jsonItems (t :: ts) = v :: vs
      rw [jsonItems, hvalue, ihs hapart.2]
  | noField => exact fun read _ => (List.append_nil read).symm
  | @field v fs t ts name _ _ _ _ _ ih ihs =>
      intro read hnodup
      have hvalue : t.json? = some v := (List.cons.inj (ih hapart.1)).1
      have hnew : name ∉ read.names := Json.new_of_nodup hnodup
      rw [jsonFields, literalKey?, hvalue]
      dsimp only
      have hrest : (Entries.names (read ++ [(name, v)] ++ fs)).Nodup := by rwa [List.append_assoc]
      rw [Entries.put_of_not_mem hnew, ihs hapart.2 _ hrest, List.append_assoc]
      rfl

theorem kind_ne_type_of_spells {t : Tree} {v : Value} (h : Spells (.value v) [t]) :
    t.kind ≠ .type := by
  cases h <;> exact nofun

namespace HandsOver

variable {t : Tree} {v : Value} {fields : List (String × Value)}

theorem kind_ne_type (h : t.HandsOver v) : t.kind ≠ .type := by
  cases h with
  | literal h => exact kind_ne_type_of_spells h
  | paren | cast | call => exact nofun

/-- The literal that is handed over is the object that the configuration is read off. -/
theorem handedObject? (h : t.HandsOver (.object fields)) :
    ∃ object, t.handedObject? = some object ∧ Spells (.value (.object fields)) [object] := by
  have hliteral : ∀ {t}, Spells (.value (.object fields)) [t] →
      ∃ object, t.handedObject? = some object ∧ Spells (.value (.object fields)) [object] := by
    intro t h
    generalize hpart : Json.Part.value (.object fields) = part at h
    generalize hts : [t] = ts at h
    induction h generalizing t with
    | object span h =>
        cases hpart
        cases hts
        exact ⟨_, rfl, .object span h⟩
    | @paren v inner span _ ih =>
        cases hts
        exact ih (t := inner) hpart rfl
    | text | null | bool | list | noItem | item | noField | field => cases hpart
  induction h with
  | literal h => exact hliteral h
  | paren _ _ ih | cast _ _ _ ih => exact ih
  | @call t callee types span hcallee htypes h ih =>
      obtain ⟨object, hobject, hspells⟩ := ih
      have hone : (t.kind != .type && types.all (·.kind == .type)) = true := by
        rw [bne_iff_ne.mpr h.kind_ne_type, Bool.true_and]
        exact List.all_eq_true.mpr fun u hu => beq_iff_eq.mpr (htypes u hu)
      refine ⟨object, ?_, hspells⟩
      rw [Tree.handedObject?]
      split
      · exact absurd (by assumption) (hcallee _)
      · rw [if_pos hone, hobject]

theorem json? (h : t.HandsOver (.object fields)) (hapart : (Value.object fields).NamesApart) :
    t.handedObject?.bind (·.json?) = some (.object fields) := by
  obtain ⟨object, hobject, hspells⟩ := h.handedObject?
  have hread := List.cons.inj (isReadAs_of_spells hspells hapart)
  rw [hobject]
  exact hread.1

end HandsOver

end Script.Tree

/-! ## Modules -/

namespace Config

open Json (Value)
open Script (Begins Cursor)

/-- The language of a module, which its path tells. -/
def moduleDialect (path : Path) : Script.Dialect := { typescript := path.extension? = some "ts" }

/-- A module that exports an expression, and nothing else, or any module in which an
expression is the default export. The expression hands over a value. -/
inductive Exports (dialect : Script.Dialect) (source : String) (v : Value) : Prop where
  | written {c c' : Cursor} (start : Cursor)
      (hstart : start = Cursor.start 0 source.toList)
      (hexport : start.token.kind = .word "export" false)
      (hdefault : start.next.token.kind = .word "default" false)
      (h : start.next.next.Hands dialect v c) (hend : Script.Rules.EndsScript c c')
  | parsed {script : Script} {item t : Script.Tree}
      (hread : Script.read dialect source = .ok script)
      (hitem : script.items.find? (·.kind == .exportDefault) = some item)
      (hpart : item.parts.head? = some t) (h : t.HandsOver v)

theorem exported_of_exports {path : Path} {source : String} {fields : List (String × Value)}
    (h : Exports (moduleDialect path) source (.object fields))
    (hapart : (Value.object fields).NamesApart) : exported path source = .ok (.object fields) := by
  have hparsed : ∀ {script item t}, Script.read (moduleDialect path) source = .ok script →
      script.items.find? (·.kind == .exportDefault) = some item → item.parts.head? = some t →
      t.HandsOver (.object fields) → exported path source = .ok (.object fields) := by
    intro script item t hread hitem hpart h
    have hread : Script.read { typescript := path.extension? = some "ts" } source = .ok script :=
      hread
    have hobject : (item.parts.head?.bind (·.handedObject?)).bind (·.json?)
        = some (.object fields) := by
      rw [hpart]
      exact h.json? hapart
    unfold exported
    dsimp only
    rw [hread]
    dsimp only
    rw [hitem]
    dsimp only
    rw [hobject]
  cases h with
  | written start hstart hexport hdefault h hend =>
      obtain ⟨t, ht, hread⟩ := Script.read_of_hands hstart hexport hdefault h hend
      exact hparsed hread rfl rfl ht
  | parsed hread hitem hpart h => exact hparsed hread hitem hpart h

theorem exported_agreesWithJson {fields : List (String × Value)} {modulePath jsonPath : Path}
    {source text : String} (hmodule : modulePath.extension? ≠ some "json")
    (hjson : jsonPath.extension? = some "json")
    (hexports : Exports (moduleDialect modulePath) source (.object fields))
    (htext : Json.IsTextOf text (.object fields)) (hapart : (Value.object fields).NamesApart) :
    exported modulePath source = .ok (.object fields) ∧
      ofText modulePath source
        = (ofJson? (.object fields)).elim (.error (.malformed modulePath)) .ok ∧
      ofText jsonPath text
        = if (Value.object fields).depth ≤ Json.maxDepth then
            (ofJson? (.object fields)).elim (.error (.malformed jsonPath)) .ok
          else .error (.malformed jsonPath) := by
  have hexported := exported_of_exports hexports hapart
  refine ⟨hexported, ?_, ?_⟩
  · rw [ofText, if_neg hmodule, hexported]
    rfl
  · rw [ofText, if_pos hjson, Json.read?_of_isTextOf htext hapart]
    split <;> rfl

/-- The kinds of the tokens from a cursor on, and whether each begins a line. -/
def upcoming : Nat → Cursor → List (Script.TokenKind × Bool)
  | 0, _ => []
  | n + 1, c => (c.token.kind, c.token.afterNewline) :: upcoming n c.next

theorem exported_agreesWithJson_define :
    let source := "export default define(\x7b \"scriptSetup\": (false) \x7d satisfies Settings)\n"
    let text := "\x7b \"scriptSetup\": false \x7d\n"
    exported ⟨["spinach.config.ts"]⟩ source = .ok (.object [("scriptSetup", .bool false)]) ∧
      ofText ⟨["spinach.config.ts"]⟩ source = .ok { scriptSetup := some false } ∧
      ofText ⟨["spinach.config.json"]⟩ text = .ok { scriptSetup := some false } := by
  intro source text
  have htokens : upcoming 15 (Cursor.start 0 source.toList) =
      [(.word "export" false, false), (.word "default" false, false), (.word "define" false, false),
        (.punct "(", false), (.punct "\x7b", false), (.string (some "scriptSetup"), false),
        (.punct ":", false), (.punct "(", false), (.word "false" false, false), (.punct ")", false),
        (.punct "\x7d", false), (.word "satisfies" false, false), (.word "Settings" false, false),
        (.punct ")", false), (.done, true)] := by
    decide +kernel
  have hexports : Exports (moduleDialect ⟨["spinach.config.ts"]⟩) source
      (.object [("scriptSetup", .bool false)]) := by
    generalize hstart : Cursor.start 0 source.toList = start at htokens
    simp only [upcoming, List.cons.injEq, Prod.mk.injEq] at htokens
    obtain ⟨⟨hexport, -⟩, ⟨hdefault, -⟩, ⟨hname, -⟩, ⟨hcall, -⟩, ⟨hobject, -⟩, ⟨hkey, -⟩,
      ⟨hcolon, -⟩, ⟨hparen, -⟩, ⟨hfalse, -⟩, ⟨hparenEnd, -⟩, ⟨hobjectEnd, -⟩,
      ⟨hsatisfies, hline⟩, ⟨htype, -⟩, ⟨hcallEnd, -⟩, ⟨hdone, -⟩, -⟩ := htokens
    have hliteral := Cursor.Spells.object hobject
      (.lastField hkey hcolon (.paren hparen (.no hfalse) hparenEnd) hobjectEnd)
    have hsettings : Script.Rules.AtTypeName "Settings" _ :=
      ⟨htype, by decide, by decide, by rw [hcallEnd]; rfl, by rw [hcallEnd]; rfl⟩
    have hcast : Cursor.Hands (moduleDialect ⟨["spinach.config.ts"]⟩) _ _ _ :=
      .cast (by decide +kernel) (.literal hliteral) hsatisfies (by decide) hline
        (by rw [htype]; rfl) (hsettings.readsType _)
    exact .written start hstart.symm hexport hdefault
      (.call hname (by decide +kernel) (by decide) hcall hcast hcallEnd) ⟨hdone, .inl rfl⟩
  have htext : Json.IsTextOf text (.object [("scriptSetup", .bool false)]) := by
    refine ⟨"\x7b \"scriptSetup\": false \x7d".toList, ['\n'], by decide +kernel, ?_, by decide⟩
    have hname : Json.SpellsString "scriptSetup".toList "scriptSetup".toList :=
      .refl (by decide +kernel)
    have hvalue : Json.Spells (.value (.bool false)) " false".toList := .blank (c := ' ') rfl .no
    have hblank : Json.Blank [' '] := by decide
    have hobject := Json.Spells.object
      (.lastField hblank hname (List.forall_mem_nil _) hvalue hblank)
    rw [String.ofList_toList] at hobject
    exact hobject
  obtain ⟨hvalue, hmodule, hjson⟩ := exported_agreesWithJson
    (show Path.extension? ⟨["spinach.config.ts"]⟩ ≠ some "json" by decide +kernel)
    (show Path.extension? ⟨["spinach.config.json"]⟩ = some "json" by decide +kernel)
    hexports htext ⟨List.pairwise_singleton .., trivial, trivial⟩
  exact ⟨hvalue, hmodule, hjson⟩

/-! ## Deep values -/

/-- Lists in each other. -/
def nest : Nat → Value
  | 0 => .list []
  | n + 1 => .list [nest n]

def nestText : Nat → List Char
  | 0 => ['[', ']']
  | n + 1 => '[' :: (nestText n ++ [']'])

theorem depth_nest (n : Nat) : (nest n).depth = n + 1 := by
  induction n with
  | zero => rfl
  | succ n ih =>
      show max (nest n).depth 0 + 1 = n + 1 + 1
      rw [ih, Nat.max_zero]

theorem namesApart_nest (n : Nat) : (nest n).NamesApart := by
  induction n with
  | zero => exact trivial
  | succ n ih => exact ⟨ih, trivial⟩

theorem spells_nestText (n : Nat) : Json.Spells (.value (nest n)) (nestText n) := by
  induction n with
  | zero => exact .emptyList (List.forall_mem_nil _)
  | succ n ih => exact .list (.lastItem ih (List.forall_mem_nil _))

/-- Lists in each other are literals of a script, too. -/
theorem cursor_spells_nestText (n pos : Nat) (rest : List Char) :
    ∃ stop, (Cursor.start pos (nestText n ++ rest)).Spells (.value (nest n))
      (Cursor.start stop rest) := by
  have hopen : ∀ cs, Begins ('[' :: cs) 0 1 (.punct "[") cs := fun _ =>
    .of_readToken (fun _ => rfl) (fun _ => rfl)
  have hclose : ∀ cs, Begins (']' :: cs) 0 1 (.punct "]") cs := fun _ =>
    .of_readToken (fun _ => rfl) (fun _ => rfl)
  induction n generalizing pos rest with
  | zero =>
      have hnext := (hopen (']' :: rest)).next pos
      have hlist := Cursor.Spells.list (congrArg (·.kind) ((hopen (']' :: rest)).token pos))
        (.closeList (by rw [hnext, (hclose rest).token]))
      rw [hnext, (hclose rest).next] at hlist
      exact ⟨_, hlist⟩
  | succ n ih =>
      have hnext := (hopen (nestText n ++ ']' :: rest)).next pos
      obtain ⟨stop, hinner⟩ := ih (pos + 0 + 1) (']' :: rest)
      rw [← hnext] at hinner
      have hlist := Cursor.Spells.list
        (congrArg (·.kind) ((hopen (nestText n ++ ']' :: rest)).token pos))
        (.lastItem hinner (by rw [(hclose rest).token]))
      rw [(hclose rest).next] at hlist
      refine ⟨stop + 0 + 1, ?_⟩
      rwa [nestText, List.cons_append, List.append_assoc, List.singleton_append]

/-- An object around lists in each other. -/
def deepText (n : Nat) : String := "\x7b\"x\":" ++ String.ofList (nestText n) ++ "\x7d"

def deepValue (n : Nat) : Value := .object [("x", nest n)]

theorem namesApart_deepValue (n : Nat) : (deepValue n).NamesApart :=
  ⟨List.pairwise_singleton .., namesApart_nest n, trivial⟩

theorem toList_deepText (n : Nat) :
    (deepText n).toList = '\x7b' :: (Json.nameText [] ['x'] [] ++ (nestText n ++ ['\x7d'])) := by
  simp [deepText, Json.nameText]

theorem isTextOf_deepText (n : Nat) : Json.IsTextOf (deepText n) (deepValue n) := by
  have hname : Json.SpellsString ['x'] ['x'] := .refl (by decide)
  have hblank : Json.Blank [] := by decide
  refine ⟨_, [], (List.append_nil _).symm, ?_, hblank⟩
  rw [toList_deepText]
  exact .object (.lastField hblank hname hblank (spells_nestText n) hblank)

theorem exports_deepText (dialect : Script.Dialect) (n : Nat) :
    Exports dialect ("export default " ++ deepText n) (deepValue n) := by
  obtain ⟨fields, hfields⟩ :
      ∃ fields, fields = '"' :: 'x' :: '"' :: ':' :: (nestText n ++ ['\x7d']) := ⟨_, rfl⟩
  have htext : ("export default " ++ deepText n).toList
      = "export".toList ++ ' ' :: ("default".toList ++ ' ' :: '\x7b' :: fields) := by
    rw [String.toList_append, toList_deepText, hfields]
    simp [Json.nameText]
  have hexport := Begins.name (show Script.IsName "export" by decide +kernel)
    (show Script.EndsName (' ' :: ("default".toList ++ ' ' :: '\x7b' :: fields)) from
      headNot_cons.mpr (by decide))
  have hdefault := (Begins.name (show Script.IsName "default" by decide +kernel)
    (show Script.EndsName (' ' :: '\x7b' :: fields) from headNot_cons.mpr (by decide))).blank
  have hopen : Begins ('\x7b' :: fields) 0 1 (.punct "\x7b") fields :=
    .of_readToken (fun _ => rfl) (fun _ => rfl)
  have hkey : Begins fields 0 3 (.string (some "x")) (':' :: (nestText n ++ ['\x7d'])) := by
    rw [hfields]
    exact .of_readToken (fun _ => rfl) (fun _ => rfl)
  have hcolon : Begins (':' :: (nestText n ++ ['\x7d'])) 0 1 (.punct ":")
      (nestText n ++ ['\x7d']) := .of_readToken (fun _ => rfl) (fun _ => rfl)
  have hclose : Begins ['\x7d'] 0 1 (.punct "\x7d") [] :=
    .of_readToken (fun _ => rfl) (fun _ => rfl)
  obtain ⟨c, hc⟩ : ∃ c, c = Cursor.start 0 ("export default " ++ deepText n).toList :=
    ⟨_, rfl⟩
  have hexportAt := hc.trans (congrArg (Cursor.start 0) htext)
  have hdefaultAt := (congrArg Cursor.next hexportAt).trans (hexport.next 0)
  have hopenAt := (congrArg Cursor.next hdefaultAt).trans (hdefault.next _)
  have hkeyAt := (congrArg Cursor.next hopenAt).trans (hopen.blank.next _)
  have hcolonAt := (congrArg Cursor.next hkeyAt).trans (hkey.next _)
  have hnestAt := (congrArg Cursor.next hcolonAt).trans (hcolon.next _)
  obtain ⟨stop, hnest⟩ := cursor_spells_nestText n _ ['\x7d']
  rw [← hnestAt] at hnest
  have hobject := Cursor.Spells.object (by rw [hopenAt, hopen.blank.token])
    (.lastField (by rw [hkeyAt, hkey.token]) (by rw [hcolonAt, hcolon.token]) hnest
      (by rw [hclose.token]))
  rw [hclose.next] at hobject
  exact .written c hc (by rw [hexportAt, hexport.token]) (by rw [hdefaultAt, hdefault.token])
    (.literal hobject) ⟨by rw [Begins.done.token], .inl rfl⟩

/-- The module is read, whatever the depth; the file is not. -/
theorem ofText_deepText {modulePath jsonPath : Path} (hmodule : modulePath.extension? ≠ some "json")
    (hjson : jsonPath.extension? = some "json") {n : Nat} (hn : 126 ≤ n) :
    ofText modulePath ("export default " ++ deepText n) = .ok {} ∧
      ofText jsonPath (deepText n) = .error (.malformed jsonPath) := by
  have hapart := namesApart_deepValue n
  have hdepth : ¬ (deepValue n).depth ≤ Json.maxDepth := by
    show ¬ max (nest n).depth 0 + 1 ≤ 127
    rw [depth_nest]
    omega
  refine ⟨?_, ?_⟩
  · rw [ofText, if_neg hmodule, exported_of_exports (exports_deepText _ n) hapart]
    rfl
  · rw [ofText, if_pos hjson, Json.read?_of_isTextOf (isTextOf_deepText n) hapart, if_neg hdepth]
    rfl

/-- One level more than a file may have; and a cast to a constant, which is looked through
nowhere. -/
theorem ofText_differs :
    (Exports {} ("export default " ++ deepText 126) (deepValue 126) ∧
      Json.IsTextOf (deepText 126) (deepValue 126) ∧ (deepValue 126).NamesApart ∧
      ofText ⟨["spinach.config.js"]⟩ ("export default " ++ deepText 126) = .ok {} ∧
      ofText ⟨["spinach.config.json"]⟩ (deepText 126)
        = .error (.malformed ⟨["spinach.config.json"]⟩)) ∧
      ofText ⟨["spinach.config.ts"]⟩ "export default \x7b\x7d as const"
        = .error (.notObject ⟨["spinach.config.ts"]⟩) := by
  have hdeep : ofText ⟨["spinach.config.js"]⟩ ("export default " ++ deepText 126) = .ok {} ∧
      ofText ⟨["spinach.config.json"]⟩ (deepText 126)
        = .error (.malformed ⟨["spinach.config.json"]⟩) :=
    ofText_deepText (by decide +kernel) (by decide +kernel) (Nat.le_refl _)
  have hconst : exported ⟨["spinach.config.ts"]⟩ "export default \x7b\x7d as const"
      = .error (.notObject ⟨["spinach.config.ts"]⟩) := by
    unfold exported
    rfl
  refine ⟨⟨exports_deepText _ _, isTextOf_deepText _, namesApart_deepValue _, hdeep⟩, ?_⟩
  rw [ofText, hconst]
  rfl

end Config

end Recompose
