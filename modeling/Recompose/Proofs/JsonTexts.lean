import Recompose.Json.Reader
import Recompose.Proofs.Entries

/-!
# JSON texts

`Spells` tells which texts spell a value, over the whole grammar of JSON but for numbers:
with any blanks, and with any spelling of the characters of a string. The reader takes
each of them for the value that it spells, if no object of it has a name twice and it is
not nested too deeply; a value that is nested too deeply it refuses in every spelling
(`read?_of_isTextOf`).
-/

namespace Recompose.Json

/-! ## Values -/

namespace Value

mutual

/-- How deep arrays and objects are nested. -/
def depth : Value → Nat
  | .list items => itemsDepth items + 1
  | .object fields => fieldsDepth fields + 1
  | _ => 0

def itemsDepth : List Value → Nat
  | [] => 0
  | v :: vs => max v.depth (itemsDepth vs)

def fieldsDepth : List (String × Value) → Nat
  | [] => 0
  | (_, v) :: fields => max v.depth (fieldsDepth fields)

end

mutual

/-- No object has two fields of one name. -/
def NamesApart : Value → Prop
  | .list items => ItemsApart items
  | .object fields => (fields.map (·.1)).Nodup ∧ FieldsApart fields
  | _ => True

def ItemsApart : List Value → Prop
  | [] => True
  | v :: vs => v.NamesApart ∧ ItemsApart vs

/-- No object in the values of the fields has two fields of one name. -/
def FieldsApart : List (String × Value) → Prop
  | [] => True
  | (_, v) :: fields => v.NamesApart ∧ FieldsApart fields

end

end Value

/-- What a piece of text can spell: a value, or what an array or object goes on with. -/
inductive Part where
  | value (v : Value)
  | items (vs : List Value)
  | fields (fields : List (String × Value))

/-! ## Strings -/

/-- Between quotes, the second text spells the characters of the first. -/
inductive SpellsString : List Char → List Char → Prop where
  | nil : SpellsString [] []
  | plain {c : Char} {cs ds : List Char} (hquote : c ≠ '"') (hbackslash : c ≠ '\\')
      (hcontrol : 0x20 ≤ c.toNat) (h : SpellsString cs ds) : SpellsString (c :: cs) (c :: ds)
  | letter {c letter : Char} {cs ds : List Char} (hletter : escaped? letter = some c)
      (h : SpellsString cs ds) : SpellsString (c :: cs) ('\\' :: letter :: ds)
  | unit {a b c d : Char} {unit : Nat} {cs ds : List Char} (hunit : codeUnit? a b c d = some unit)
      (hwhole : unit < 0xd800 ∨ 0xe000 ≤ unit) (h : SpellsString cs ds) :
      SpellsString (Char.ofNat unit :: cs) ('\\' :: 'u' :: a :: b :: c :: d :: ds)
  | pair {a b c d a' b' c' d' : Char} {high low : Nat} {cs ds : List Char}
      (hhigh : codeUnit? a b c d = some high) (hlow : codeUnit? a' b' c' d' = some low)
      (hfirst : 0xd800 ≤ high ∧ high < 0xdc00) (hsecond : 0xdc00 ≤ low ∧ low < 0xe000)
      (h : SpellsString cs ds) :
      SpellsString (Char.ofNat (0x10000 + (high - 0xd800) * 0x400 + (low - 0xdc00)) :: cs)
        ('\\' :: 'u' :: a :: b :: c :: d :: '\\' :: 'u' :: a' :: b' :: c' :: d' :: ds)

/-- A text without quotes, backslashes and control characters spells itself. -/
theorem SpellsString.refl {cs : List Char}
    (h : cs.all (fun c => c ≠ '"' ∧ c ≠ '\\' ∧ 0x20 ≤ c.toNat) = true) : SpellsString cs cs := by
  induction cs with
  | nil => exact .nil
  | cons c cs ih =>
      rw [List.all_cons, Bool.and_eq_true, decide_eq_true_eq] at h
      obtain ⟨⟨hquote, hbackslash, hcontrol⟩, hrest⟩ := h
      exact .plain hquote hbackslash hcontrol (ih hrest)

theorem readString_of_spells {cs ds : List Char} (h : SpellsString cs ds) (rest : List Char) :
    readString (ds ++ '"' :: rest) = some (cs, rest) := by
  induction h with
  | nil => rfl
  | @plain c cs ds hquote hbackslash hcontrol _ ih =>
      have hnot : ¬ c.toNat < 0x20 := Nat.not_lt.mpr hcontrol
      simp [readString, hbackslash, hnot, ih]
  | @letter c letter cs ds hletter _ ih =>
      have hother : letter ≠ 'u' := by
        rintro rfl
        cases hletter
      simp [readString, hother, hletter, ih]
  | @unit a b c d unit cs ds hunit hwhole _ ih =>
      have hhigh : ¬ (0xd800 ≤ unit ∧ unit < 0xdc00) := by omega
      have hlow : ¬ (0xdc00 ≤ unit ∧ unit < 0xe000) := by omega
      simp only [List.cons_append, readString, hunit, hhigh, hlow, if_false, ih, Option.map_some]
  | pair hhigh hlow hfirst hsecond _ ih =>
      simp only [List.cons_append, readString, hhigh, hlow, hfirst, hsecond, and_self, if_true, ih,
        Option.map_some]

/-! ## Texts -/

def Blank (cs : List Char) : Prop := ∀ c ∈ cs, isJsonBlank c = true

instance (cs : List Char) : Decidable (Blank cs) :=
  decidable_of_iff (cs.all isJsonBlank = true) List.all_eq_true

/-- A name and the colon behind it. -/
def nameText (before name behind : List Char) : List Char :=
  before ++ '"' :: (name ++ '"' :: (behind ++ [':']))

/-- The text spells a value, or what is left of an array or object from its next item or
field on, up to the bracket or brace that closes it. -/
inductive Spells : Part → List Char → Prop where
  | blank {v : Value} {c : Char} {cs : List Char} (hc : isJsonBlank c = true)
      (h : Spells (.value v) cs) : Spells (.value v) (c :: cs)
  | null : Spells (.value .null) ['n', 'u', 'l', 'l']
  | yes : Spells (.value (.bool true)) ['t', 'r', 'u', 'e']
  | no : Spells (.value (.bool false)) ['f', 'a', 'l', 's', 'e']
  | text {cs ds : List Char} (h : SpellsString cs ds) :
      Spells (.value (.text (String.ofList cs))) ('"' :: (ds ++ ['"']))
  | emptyList {gap : List Char} (hgap : Blank gap) : Spells (.value (.list [])) ('[' :: (gap ++ [']']))
  | list {v : Value} {vs : List Value} {cs : List Char} (h : Spells (.items (v :: vs)) cs) :
      Spells (.value (.list (v :: vs))) ('[' :: cs)
  | emptyObject {gap : List Char} (hgap : Blank gap) :
      Spells (.value (.object [])) ('\x7b' :: (gap ++ ['\x7d']))
  | object {field : String × Value} {fields : List (String × Value)} {cs : List Char}
      (h : Spells (.fields (field :: fields)) cs) :
      Spells (.value (.object (field :: fields))) ('\x7b' :: cs)
  | lastItem {v : Value} {cs gap : List Char} (h : Spells (.value v) cs) (hgap : Blank gap) :
      Spells (.items [v]) (cs ++ (gap ++ [']']))
  | item {v w : Value} {vs : List Value} {cs ds gap : List Char} (h : Spells (.value v) cs)
      (hgap : Blank gap) (hs : Spells (.items (w :: vs)) ds) :
      Spells (.items (v :: w :: vs)) (cs ++ (gap ++ ',' :: ds))
  | lastField {v : Value} {before name behind spelt cs gap : List Char} (hbefore : Blank before)
      (hname : SpellsString name spelt) (hbehind : Blank behind) (h : Spells (.value v) cs)
      (hgap : Blank gap) :
      Spells (.fields [(String.ofList name, v)])
        (nameText before spelt behind ++ (cs ++ (gap ++ ['\x7d'])))
  | field {v : Value} {next : String × Value} {fields : List (String × Value)}
      {before name behind spelt cs ds gap : List Char} (hbefore : Blank before)
      (hname : SpellsString name spelt) (hbehind : Blank behind) (h : Spells (.value v) cs)
      (hgap : Blank gap) (hs : Spells (.fields (next :: fields)) ds) :
      Spells (.fields ((String.ofList name, v) :: next :: fields))
        (nameText before spelt behind ++ (cs ++ (gap ++ ',' :: ds)))

/-! ## Blanks -/

theorem skipBlank_append {gap : List Char} (hgap : Blank gap) (cs : List Char) :
    skipBlank (gap ++ cs) = skipBlank cs := by
  induction gap with
  | nil => rfl
  | cons c gap ih =>
      obtain ⟨hc, hgap⟩ := List.forall_mem_cons.mp hgap
      rw [← ih hgap, skipBlank, List.cons_append, List.dropWhile_cons_of_pos hc]
      rfl

theorem skipBlank_cons {c : Char} (hc : isJsonBlank c = false) (cs : List Char) :
    skipBlank (c :: cs) = c :: cs :=
  List.dropWhile_cons_of_neg (by rw [hc]; exact Bool.false_ne_true)

theorem readValue_congr {cs ds : List Char} (h : skipBlank cs = skipBlank ds) (fuel depth : Nat) :
    readValue fuel depth cs = readValue fuel depth ds := by
  cases fuel with
  | zero => simp only [readValue]
  | succ fuel => simp only [readValue, h]

/-- The first character of a text that spells a value. -/
theorem Spells.skipBlank_value {v : Value} {cs : List Char} (h : Spells (.value v) cs)
    (rest : List Char) : ∃ c ds, skipBlank (cs ++ rest) = c :: ds ∧ c ≠ ']' := by
  generalize hpart : Part.value v = part at h
  induction h generalizing v with
  | blank hc _ ih =>
      obtain ⟨c, ds, hds, hne⟩ := ih rfl
      refine ⟨c, ds, ?_, hne⟩
      rw [← hds]
      exact List.dropWhile_cons_of_pos hc
  | null | yes | no | text | emptyList | list | emptyObject | object =>
      exact ⟨_, _, skipBlank_cons (by decide) _, by decide⟩
  | lastItem | item | lastField | field => cases hpart

/-! ## Reading -/

section Pieces

variable {v : Value} {cs ds gap rest : List Char} {fuel depth : Nat}

theorem readItems_last (hgap : Blank gap) (h : readValue fuel depth cs
      = if v.depth ≤ depth then some (v, gap ++ ']' :: rest) else none) (read : List Value) :
    readItems (fuel + 1) depth read cs
      = if v.depth ≤ depth then some (.list (read ++ [v]), rest) else none := by
  have hclose : skipBlank (gap ++ ']' :: rest) = ']' :: rest := by
    rw [skipBlank_append hgap, skipBlank_cons (by decide)]
  by_cases hdepth : v.depth ≤ depth
  · simp only [readItems, h, if_pos hdepth, hclose]
  · simp only [readItems, h, if_neg hdepth]

theorem readItems_next (hgap : Blank gap) (h : readValue fuel depth cs
      = if v.depth ≤ depth then some (v, gap ++ ',' :: ds) else none) (read : List Value) :
    readItems (fuel + 1) depth read cs
      = if v.depth ≤ depth then readItems fuel depth (read ++ [v]) ds else none := by
  have hcomma : skipBlank (gap ++ ',' :: ds) = ',' :: ds := by
    rw [skipBlank_append hgap, skipBlank_cons (by decide)]
  by_cases hdepth : v.depth ≤ depth
  · simp only [readItems, h, if_pos hdepth, hcomma]
  · simp only [readItems, h, if_neg hdepth]

variable {before name behind spelt : List Char}

theorem skipBlank_nameText (hbefore : Blank before) (rest : List Char) :
    skipBlank (nameText before spelt behind ++ rest)
      = '"' :: (spelt ++ '"' :: (behind ++ ':' :: rest)) := by
  rw [show nameText before spelt behind ++ rest
      = before ++ '"' :: (spelt ++ '"' :: (behind ++ ':' :: rest)) by simp [nameText],
    skipBlank_append hbefore, skipBlank_cons (by decide)]

/-- The fields of an object from behind one of them on. -/
def fieldsBehind (fuel depth : Nat) (read : Entries Value) (cs : List Char) :
    Option (Value × List Char) :=
  match skipBlank cs with
  | ',' :: rest => readFields fuel depth read rest
  | '\x7d' :: rest => some (.object read, rest)
  | _ => none

/-- A field, up to what is behind its value. -/
theorem readFields_field (hbefore : Blank before) (hname : SpellsString name spelt)
    (hbehind : Blank behind)
    (h : readValue fuel depth cs = if v.depth ≤ depth then some (v, ds) else none)
    {read : Entries Value} (hnew : String.ofList name ∉ read.names) :
    readFields (fuel + 1) depth read (nameText before spelt behind ++ cs)
      = if v.depth ≤ depth then fieldsBehind fuel depth (read ++ [(String.ofList name, v)]) ds
        else none := by
  have hcolon : skipBlank (behind ++ ':' :: cs) = ':' :: cs := by
    rw [skipBlank_append hbehind, skipBlank_cons (by decide)]
  by_cases hdepth : v.depth ≤ depth
  · simp only [readFields, skipBlank_nameText hbefore, readString_of_spells hname, hcolon, h,
      if_pos hdepth, Entries.put_of_not_mem hnew]
    rfl
  · simp only [readFields, skipBlank_nameText hbefore, readString_of_spells hname, hcolon, h,
      if_neg hdepth]

theorem readFields_last (hbefore : Blank before) (hname : SpellsString name spelt)
    (hbehind : Blank behind) (hgap : Blank gap) (h : readValue fuel depth cs
      = if v.depth ≤ depth then some (v, gap ++ '\x7d' :: rest) else none)
    {read : Entries Value} (hnew : String.ofList name ∉ read.names) :
    readFields (fuel + 1) depth read (nameText before spelt behind ++ cs)
      = if v.depth ≤ depth then some (.object (read ++ [(String.ofList name, v)]), rest)
        else none := by
  rw [readFields_field hbefore hname hbehind h hnew, fieldsBehind, skipBlank_append hgap,
    skipBlank_cons (by decide)]
  rfl

theorem readFields_next (hbefore : Blank before) (hname : SpellsString name spelt)
    (hbehind : Blank behind) (hgap : Blank gap) (h : readValue fuel depth cs
      = if v.depth ≤ depth then some (v, gap ++ ',' :: ds) else none)
    {read : Entries Value} (hnew : String.ofList name ∉ read.names) :
    readFields (fuel + 1) depth read (nameText before spelt behind ++ cs)
      = if v.depth ≤ depth then readFields fuel depth (read ++ [(String.ofList name, v)]) ds
        else none := by
  rw [readFields_field hbefore hname hbehind h hnew, fieldsBehind, skipBlank_append hgap,
    skipBlank_cons (by decide)]
  rfl

theorem readValue_emptyList (hgap : Blank gap) :
    readValue (fuel + 1) depth ('[' :: (gap ++ ']' :: rest))
      = if 1 ≤ depth then some (.list [], rest) else none := by
  have hclose : skipBlank (gap ++ ']' :: rest) = ']' :: rest := by
    rw [skipBlank_append hgap, skipBlank_cons (by decide)]
  simp only [readValue, skipBlank_cons (show isJsonBlank '[' = false by decide), hclose]
  cases depth <;> rfl

theorem readValue_emptyObject (hgap : Blank gap) :
    readValue (fuel + 1) depth ('\x7b' :: (gap ++ '\x7d' :: rest))
      = if 1 ≤ depth then some (.object [], rest) else none := by
  have hclose : skipBlank (gap ++ '\x7d' :: rest) = '\x7d' :: rest := by
    rw [skipBlank_append hgap, skipBlank_cons (by decide)]
  simp only [readValue, skipBlank_cons (show isJsonBlank '\x7b' = false by decide), hclose]
  cases depth <;> rfl

theorem readValue_list {c : Char} (hc : skipBlank cs = c :: ds) (hne : c ≠ ']') :
    readValue (fuel + 1) depth ('[' :: cs)
      = match depth with
        | 0 => none
        | depth + 1 => readItems fuel depth [] cs := by
  simp only [readValue, skipBlank_cons (show isJsonBlank '[' = false by decide), hc]
  cases depth with
  | zero => rfl
  | succ depth => simp [hne]

theorem readValue_object {c : Char} (hc : skipBlank cs = c :: ds) (hne : c ≠ '\x7d') :
    readValue (fuel + 1) depth ('\x7b' :: cs)
      = match depth with
        | 0 => none
        | depth + 1 => readFields fuel depth [] cs := by
  simp only [readValue, skipBlank_cons (show isJsonBlank '\x7b' = false by decide), hc]
  cases depth with
  | zero => rfl
  | succ depth => simp [hne]

end Pieces

theorem Spells.skipBlank_fields {field : String × Value} {fields : List (String × Value)}
    {cs : List Char} (h : Spells (.fields (field :: fields)) cs) (rest : List Char) :
    ∃ ds, skipBlank (cs ++ rest) = '"' :: ds := by
  cases h with
  | lastField hbefore => exact ⟨_, by rw [List.append_assoc]; exact skipBlank_nameText hbefore _⟩
  | field hbefore => exact ⟨_, by rw [List.append_assoc]; exact skipBlank_nameText hbefore _⟩

theorem Spells.skipBlank_items {v : Value} {vs : List Value} {cs : List Char}
    (h : Spells (.items (v :: vs)) cs) (rest : List Char) :
    ∃ c ds, skipBlank (cs ++ rest) = c :: ds ∧ c ≠ ']' := by
  cases h with
  | lastItem h => rw [List.append_assoc]; exact h.skipBlank_value _
  | item h => rw [List.append_assoc]; exact h.skipBlank_value _

def Part.NamesApart : Part → Prop
  | .value v => v.NamesApart
  | .items vs => Value.ItemsApart vs
  | .fields fs => Value.FieldsApart fs

/-- What the reader makes of a piece of text, whatever follows it. -/
def Part.IsRead (cs : List Char) : Part → Prop
  | .value v => ∀ fuel depth rest, 2 * cs.length ≤ fuel →
      readValue fuel depth (cs ++ rest) = if v.depth ≤ depth then some (v, rest) else none
  | .items vs => ∀ fuel depth read rest, 2 * cs.length ≤ fuel →
      readItems fuel depth read (cs ++ rest)
        = if Value.itemsDepth vs ≤ depth then some (.list (read ++ vs), rest) else none
  | .fields fs => ∀ fuel depth (read : Entries Value) rest, 2 * cs.length ≤ fuel →
      (Entries.names (read ++ fs)).Nodup →
      readFields fuel depth read (cs ++ rest)
        = if Value.fieldsDepth fs ≤ depth then some (.object (read ++ fs), rest) else none

theorem ite_max {α : Type} (a b depth : Nat) (result : α) (other : α) :
    (if a ≤ depth then if b ≤ depth then result else other else other)
      = if max a b ≤ depth then result else other := by
  by_cases ha : a ≤ depth <;> by_cases hb : b ≤ depth <;>
    simp only [Nat.max_le, ha, hb, and_self, and_true, and_false, if_true, if_false]

/-- Enough steps are left in front of a piece of the text. -/
theorem exists_fuel {fuel : Nat} (n : Nat) (h : 2 * (n + 1) ≤ fuel) : ∃ k, fuel = k + 1 ∧ 2 * n < k := by
  obtain ⟨k, rfl⟩ := Nat.exists_eq_add_of_le' (show 1 ≤ fuel by omega)
  exact ⟨k, rfl, by omega⟩

theorem new_of_nodup {read : Entries Value} {name : String} {v : Value}
    {fs : List (String × Value)} (h : (Entries.names (read ++ (name, v) :: fs)).Nodup) :
    name ∉ read.names := by
  rw [Entries.names, List.map_append, List.map_cons] at h
  exact fun hmem => (List.nodup_append.mp h).2.2 _ hmem _ (List.mem_cons_self ..) rfl

theorem Part.isRead {part : Part} {cs : List Char} (h : Spells part cs)
    (hapart : part.NamesApart) : part.IsRead cs := by
  induction h with
  | @blank v c cs hc _ ih =>
      intro fuel depth rest hfuel
      rw [List.length_cons] at hfuel
      have hskip : skipBlank (c :: (cs ++ rest)) = skipBlank (cs ++ rest) :=
        List.dropWhile_cons_of_pos hc
      rw [List.cons_append, readValue_congr hskip]
      exact ih hapart fuel depth rest (by omega)
  | null | yes | no =>
      intro fuel depth rest hfuel
      obtain ⟨k, rfl, -⟩ := exists_fuel _ hfuel
      rfl
  | @text cs ds hspells =>
      intro fuel depth rest hfuel
      obtain ⟨k, rfl, -⟩ := exists_fuel _ hfuel
      rw [List.cons_append, List.append_assoc]
      simp only [readValue, skipBlank_cons (show isJsonBlank '"' = false by decide),
        List.singleton_append, readString_of_spells hspells]
      rfl
  | @emptyList gap hgap =>
      intro fuel depth rest hfuel
      obtain ⟨k, rfl, -⟩ := exists_fuel _ hfuel
      rw [List.cons_append, List.append_assoc]
      exact readValue_emptyList hgap
  | @list v vs cs h ih =>
      intro fuel depth rest hfuel
      obtain ⟨k, rfl, hk⟩ := exists_fuel _ hfuel
      obtain ⟨c, ds, hds, hne⟩ := h.skipBlank_items rest
      rw [List.cons_append, readValue_list hds hne]
      cases depth with
      | zero => rfl
      | succ depth =>
          refine (ih hapart k depth [] rest (by omega)).trans ?_
          simp only [Value.depth, Nat.add_le_add_iff_right, List.nil_append]
  | @emptyObject gap hgap =>
      intro fuel depth rest hfuel
      obtain ⟨k, rfl, -⟩ := exists_fuel _ hfuel
      rw [List.cons_append, List.append_assoc]
      exact readValue_emptyObject hgap
  | @object field fields cs h ih =>
      intro fuel depth rest hfuel
      obtain ⟨k, rfl, hk⟩ := exists_fuel _ hfuel
      obtain ⟨ds, hds⟩ := h.skipBlank_fields rest
      rw [List.cons_append, readValue_object hds (by decide)]
      cases depth with
      | zero => rfl
      | succ depth =>
          refine (ih hapart.2 k depth [] rest (by omega) hapart.1).trans ?_
          simp only [Value.depth, Nat.add_le_add_iff_right, List.nil_append]
  | @lastItem v cs gap _ hgap ih =>
      intro fuel depth read rest hfuel
      simp only [List.length_append, List.length_singleton] at hfuel
      obtain ⟨k, rfl, hk⟩ := exists_fuel (cs.length + gap.length) (show _ ≤ fuel by omega)
      have hvalue := ih hapart.1 k depth (gap ++ ']' :: rest) (by omega)
      rw [List.append_assoc, List.append_assoc, List.singleton_append,
        readItems_last hgap hvalue]
      simp only [Value.itemsDepth, Nat.max_zero]
  | @item v w vs cs ds gap _ hgap _ ih ihs =>
      intro fuel depth read rest hfuel
      simp only [List.length_append, List.length_cons] at hfuel
      obtain ⟨k, rfl, hk⟩ := exists_fuel (cs.length + gap.length + ds.length) (show _ ≤ fuel by omega)
      have hvalue := ih hapart.1 k depth (gap ++ ',' :: (ds ++ rest)) (by omega)
      rw [List.append_assoc, List.append_assoc, List.cons_append, readItems_next hgap hvalue,
        ihs hapart.2 k depth _ rest (by omega), ite_max, List.append_assoc]
      rfl
  | @lastField v before name behind spelt cs gap hbefore hname hbehind _ hgap ih =>
      intro fuel depth read rest hfuel hnodup
      simp only [List.length_append, List.length_singleton] at hfuel
      obtain ⟨k, rfl, hk⟩ := exists_fuel (cs.length + gap.length) (show _ ≤ fuel by omega)
      have hvalue := ih hapart.1 k depth (gap ++ '\x7d' :: rest) (by omega)
      have hnew : String.ofList name ∉ read.names := new_of_nodup hnodup
      rw [List.append_assoc, List.append_assoc, List.append_assoc, List.singleton_append,
        readFields_last hbefore hname hbehind hgap hvalue hnew]
      simp only [Value.fieldsDepth, Nat.max_zero]
  | @field v next fields before name behind spelt cs ds gap hbefore hname hbehind _ hgap _ ih ihs =>
      intro fuel depth read rest hfuel hnodup
      simp only [List.length_append, List.length_cons] at hfuel
      obtain ⟨k, rfl, hk⟩ := exists_fuel (cs.length + gap.length + ds.length) (show _ ≤ fuel by omega)
      have hvalue := ih hapart.1 k depth (gap ++ ',' :: (ds ++ rest)) (by omega)
      have hnew : String.ofList name ∉ read.names := new_of_nodup hnodup
      rw [List.append_assoc, List.append_assoc, List.append_assoc, List.cons_append,
        readFields_next hbefore hname hbehind hgap hvalue hnew,
        ihs hapart.2 k depth _ rest (by omega) (by rwa [List.append_assoc]), ite_max,
        List.append_assoc]
      rfl

/-- The whole text spells a value, with any blanks around it. -/
def IsTextOf (text : String) (v : Value) : Prop :=
  ∃ cs gap, text.toList = cs ++ gap ∧ Spells (.value v) cs ∧ Blank gap

theorem Blank.skipBlank_eq_nil {gap : List Char} (h : Blank gap) : skipBlank gap = [] := by
  have hskip := skipBlank_append h []
  rwa [List.append_nil] at hskip

/-- The reader takes a text for the value that it spells, unless it is nested too deeply. -/
theorem read?_of_isTextOf {v : Value} {text : String} (h : IsTextOf text v)
    (hapart : v.NamesApart) : read? text = if v.depth ≤ maxDepth then some v else none := by
  obtain ⟨cs, gap, htext, hspells, hgap⟩ := h
  have hlength := congrArg List.length htext
  rw [String.length_toList, List.length_append] at hlength
  rw [read?, htext, Part.isRead hspells hapart (2 * text.length + 2) maxDepth gap (by omega)]
  by_cases hdepth : v.depth ≤ maxDepth
  · simp only [if_pos hdepth, hgap.skipBlank_eq_nil, List.isEmpty_nil, if_true]
  · simp only [if_neg hdepth]

end Recompose.Json
