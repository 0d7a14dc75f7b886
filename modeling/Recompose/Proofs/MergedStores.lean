import Mathlib.Data.List.Nodup
import Mathlib.Data.List.Pairwise
import Recompose.Proofs.StoreDeclarations

/-!
# Merging the declarations of mapped stores

Requests are merged by the text of their initial value. A slot (`Slot`) is what mappings
want declared: the variable of a store, its state, or its actions. The initial values tell
slots apart, as long as no two stores have the same variable (`ToldApart.initAt_injOn`);
then the requests of a slot come to one declaration (`ofValue_initAt`), and what is hoisted
has one variable for each store and binds each local name once, to a key of its own store
(`ToldApart.mergesStores`, `declarations_hoistedFor`).

Variables are named after the functions that give the stores, so two stores can have the
same one, and a local name can be the variable of a store. There, no declarations do what
the mappings ask for (`MergesStores.toldApart`).
-/

namespace Recompose.Store

open Script (IsName IsOperand IsProperty propertyText)

/-! ## Declarations -/

/-- A declaration that mappings lead to: the variable of a store, or keys that are taken
out of one, as state or as actions. -/
inductive Declared where
  | variable_ (store : String)
  | keys (store : String) (isState : Bool) (pairs : List (String × String))
deriving DecidableEq, Repr

namespace Declared

/-- The declaration as it is written. -/
def request (s : Settings) : Declared → DeclarationRequest
  | variable_ store => variableRequest store
  | keys store isState pairs => keysRequest s store isState pairs

/-- The names that a declaration binds. -/
def names : Declared → List String
  | variable_ store => [storeVariable store]
  | keys _ _ pairs => pairs.map (·.2)

end Declared

/-- What mappings want declared: the variable of a store, or its state, or its actions. -/
abbrev Slot := String × Option Bool

/-- Whether a mapping wants the declaration of a slot. -/
def wants (slot : Slot) (p : Mapping × Bool) : Bool :=
  slot.1 = p.1.store ∧ (slot.2 = none ∨ slot.2 = some p.2)

/-- The pairs that mappings take out of a store, as state or as actions. -/
def pairsOf (ms : List (Mapping × Bool)) (store : String) (isState : Bool) :
    List (String × String) :=
  (ms.filter (wants (store, some isState))).flatMap (·.1.keys)

/-- The declaration of a slot. -/
def declaredAt (ms : List (Mapping × Bool)) : Slot → Declared
  | (store, none) => .variable_ store
  | (store, some isState) => .keys store isState (pairsOf ms store isState)

/-- The slots of mappings, in the order of first use. -/
def slots (ms : List (Mapping × Bool)) : List Slot :=
  (ms.flatMap fun p => [(p.1.store, none), (p.1.store, some p.2)]).eraseDups

/-- The declarations of mappings. -/
def declared (ms : List (Mapping × Bool)) : List Declared := (slots ms).map (declaredAt ms)

section

variable {ms : List (Mapping × Bool)} {slot : Slot}

theorem wants_eq_true {p : Mapping × Bool} :
    wants slot p = true ↔ slot.1 = p.1.store ∧ (slot.2 = none ∨ slot.2 = some p.2) :=
  decide_eq_true_iff

theorem mem_slots : slot ∈ slots ms ↔ ∃ p ∈ ms, wants slot p = true := by
  obtain ⟨store, kind⟩ := slot
  rw [slots, List.mem_eraseDups]
  simp only [List.mem_flatMap, List.mem_cons, List.not_mem_nil, or_false, Prod.mk.injEq,
    wants_eq_true, ← and_or_left]

theorem nodup_slots : (slots ms).Nodup := Entries.nodup_eraseDups _

theorem declaredAt_injective (ms : List (Mapping × Bool)) : Function.Injective (declaredAt ms) := by
  rintro ⟨store, none | isState⟩ ⟨store', none | isState'⟩ h
  · rw [Declared.variable_.inj h]
  · cases h
  · cases h
  · obtain ⟨rfl, rfl, -⟩ := Declared.keys.inj h
    rfl

theorem nodup_declared : (declared ms).Nodup := nodup_slots.map (declaredAt_injective ms)

theorem pair_mem_pairsOf {store : String} {isState : Bool} {pair : String × String} :
    pair ∈ pairsOf ms store isState ↔
      ∃ p ∈ ms, p.1.store = store ∧ p.2 = isState ∧ pair ∈ p.1.keys := by
  simp only [pairsOf, List.mem_flatMap, List.mem_filter, wants_eq_true, reduceCtorEq, false_or,
    Option.some.injEq]
  constructor
  · rintro ⟨p, ⟨hp, rfl, rfl⟩, hpair⟩
    exact ⟨p, hp, rfl, rfl, hpair⟩
  · rintro ⟨p, hp, rfl, rfl, hpair⟩
    exact ⟨p, ⟨hp, rfl, rfl⟩, hpair⟩

theorem pairsOf_sublist (ms : List (Mapping × Bool)) (store : String) (isState : Bool) :
    ((pairsOf ms store isState).map (·.2)).Sublist (locals ms) := by
  rw [pairsOf, List.map_flatMap]
  exact List.filter_sublist.flatMap _

end

/-! ## Names told apart -/

/-- Names that can be written, stores with variables of their own, and local names that
are no variables of stores. -/
structure ToldApart (ms : List (Mapping × Bool)) : Prop where
  writable : ∀ p ∈ ms, p.1.IsWritable
  ownVariable : ∀ p ∈ ms, ∀ q ∈ ms,
    storeVariable p.1.store = storeVariable q.1.store → p.1.store = q.1.store
  notLocal : ∀ p ∈ ms, storeVariable p.1.store ∉ locals ms

instance (ms : List (Mapping × Bool)) : Decidable (ToldApart ms) :=
  decidable_of_iff ((∀ p ∈ ms, p.1.IsWritable) ∧
      (∀ p ∈ ms, ∀ q ∈ ms, storeVariable p.1.store = storeVariable q.1.store →
        p.1.store = q.1.store) ∧
      ∀ p ∈ ms, storeVariable p.1.store ∉ locals ms)
    ⟨fun h => ⟨h.1, h.2.1, h.2.2⟩, fun h => ⟨h.writable, h.ownVariable, h.notLocal⟩⟩

section

variable {name name' : String}

theorem opening_not_mem (h : IsName name) : '(' ∉ name.toList := h.not_mem (by decide)

theorem colon_not_mem (h : IsName name) : ':' ∉ name.toList := h.not_mem (by decide)

theorem call_injective (h : name ++ "()" = name' ++ "()") : name = name' := by
  have hchars := congrArg String.toList h
  rw [String.toList_append, String.toList_append] at hchars
  exact String.toList_injective (List.append_cancel_right hchars)

theorem taken_state (s : Settings) (name : String) :
    (taken s name true).toList
      = (if s.reactivityTransform then "$(storeToRefs(" else "storeToRefs(").toList ++
        (name.toList ++ (if s.reactivityTransform then "))" else ")").toList) := by
  cases h : s.reactivityTransform <;> simp [taken, refsOf, h]

/-- A store is not called where keys are taken out of it. -/
theorem call_ne_taken (s : Settings) {store : String} (hname : IsName name) (isState : Bool) :
    store ++ "()" ≠ taken s name isState := by
  have hopening := opening_not_mem hname
  intro heq
  have hchars : store.toList ++ ['(', ')'] = (taken s name isState).toList := by
    simpa using congrArg String.toList heq
  cases isState with
  | false => exact hopening (hchars ▸ List.mem_append_right _ (List.mem_cons_self ..))
  | true =>
      -- In front of the last parenthesis, a call opens one, and what is taken ends a name.
      obtain ⟨front, last, hsplit⟩ := (List.eq_nil_or_concat' _).resolve_left
        hname.toList_ne_nil
      have hreversed := congrArg List.reverse hchars
      rw [taken_state] at hreversed
      cases hreactivity : s.reactivityTransform
      · obtain ⟨hlast, -⟩ : '(' = last ∧ _ := by simpa [hreactivity, hsplit] using hreversed
        rw [hsplit, hlast] at hopening
        exact hopening (List.mem_append_right _ (List.mem_singleton_self _))
      · simp [hreactivity, hsplit] at hreversed

theorem taken_injective (s : Settings) {isState isState' : Bool} (hname : IsName name)
    (hname' : IsName name') (h : taken s name isState = taken s name' isState') :
    name = name' ∧ isState = isState' := by
  have hopening : ∀ {n m : String}, IsName n → taken s n false ≠ taken s m true := by
    intro n m hn heq
    have hmem : '(' ∈ (taken s m true).toList := by
      rw [taken_state]
      refine List.mem_append_left _ ?_
      cases s.reactivityTransform <;> decide
    exact opening_not_mem hn (by rwa [← heq] at hmem)
  cases isState <;> cases isState'
  · exact ⟨h, rfl⟩
  · exact absurd h (hopening hname)
  · exact absurd h.symm (hopening hname')
  · have hchars := congrArg String.toList h
    rw [taken_state, taken_state] at hchars
    exact ⟨String.toList_injective (List.append_cancel_right (List.append_cancel_left hchars)), rfl⟩

theorem propertyText_snd_inj {p q : String × String} (hp : IsProperty p) (hq : IsProperty q)
    (h : propertyText p = propertyText q) : p.2 = q.2 := by
  obtain ⟨key, bound⟩ := p
  obtain ⟨key', bound'⟩ := q
  have hcolon : ∀ {n k b : String}, IsName n → n ≠ k ++ ": " ++ b := by
    intro n k b hn heq
    exact colon_not_mem hn (by simp [heq])
  unfold propertyText at h
  dsimp only at h ⊢
  split at h <;> split at h
  · rename_i heq heq'
    rw [← heq, ← heq', h]
  · exact absurd h (hcolon hp.key)
  · exact absurd h.symm (hcolon hq.key)
  · have hchars : key.toList ++ ':' :: ' ' :: bound.toList
        = key'.toList ++ ':' :: ' ' :: bound'.toList := by
      simpa using congrArg String.toList h
    obtain ⟨-, -, hbound⟩ := (List.append_cons_inj_of_notMem (colon_not_mem hp.key)
      (by simpa using colon_not_mem hp.bindable.isName)).mp hchars
    exact String.toList_injective (List.cons.inj hbound).2

end

/-! ## Merged requests -/

/-- The initial value that a slot is declared with. -/
def initAt (s : Settings) : Slot → String
  | (store, none) => store ++ "()"
  | (store, some isState) => taken s (storeVariable store) isState

/-- The requests of mappings. -/
def requests (s : Settings) (ms : List (Mapping × Bool)) : List DeclarationRequest :=
  ms.flatMap fun p => [variableRequest p.1.store, keysRequest s p.1.store p.2 p.1.keys]

/-- What a mapping requests for a slot that it wants. -/
def requestAt (s : Settings) (slot : Slot) (p : Mapping × Bool) : DeclarationRequest :=
  match slot with
  | (store, none) => variableRequest store
  | (store, some isState) => keysRequest s store isState p.1.keys

section

variable {ms : List (Mapping × Bool)}

/-- Initial values tell slots apart. -/
theorem ToldApart.initAt_injOn (h : ToldApart ms) (s : Settings) {a b : Slot}
    (ha : a ∈ slots ms) (hb : b ∈ slots ms) (heq : initAt s a = initAt s b) : a = b := by
  obtain ⟨p, hp, hwants⟩ := mem_slots.mp ha
  obtain ⟨q, hq, hwants'⟩ := mem_slots.mp hb
  obtain ⟨store, kind⟩ := a
  obtain ⟨store', kind'⟩ := b
  obtain rfl : store = p.1.store := (wants_eq_true.mp hwants).1
  obtain rfl : store' = q.1.store := (wants_eq_true.mp hwants').1
  have hname := (h.writable p hp).variable_.isName
  have hname' := (h.writable q hq).variable_.isName
  cases kind <;> cases kind'
  · rw [call_injective heq]
  · exact absurd heq (call_ne_taken s hname' _)
  · exact absurd heq.symm (call_ne_taken s hname _)
  · obtain ⟨hvariable, rfl⟩ := taken_injective s hname hname' heq
    rw [h.ownVariable p hp q hq hvariable]

theorem init_requests (s : Settings) (h : ToldApart ms) :
    ((requests s ms).map (·.init)).eraseDups = (slots ms).map (initAt s) := by
  have hmap : (requests s ms).map (·.init)
      = (ms.flatMap fun p => [(p.1.store, none), (p.1.store, some p.2)]).map (initAt s) := by
    rw [requests, List.map_flatMap, List.map_flatMap]
    rfl
  rw [hmap, Entries.eraseDups_map fun a ha b hb => h.initAt_injOn s (List.mem_eraseDups.mpr ha)
    (List.mem_eraseDups.mpr hb)]
  rfl

theorem mem_slots_of_mem {p : Mapping × Bool} (hp : p ∈ ms) {kind : Option Bool}
    (hkind : kind = none ∨ kind = some p.2) : (p.1.store, kind) ∈ slots ms :=
  mem_slots.mpr ⟨p, hp, wants_eq_true.mpr ⟨rfl, hkind⟩⟩

/-- The requests for the initial value of a slot are those of the mappings that want it. -/
theorem requestsFor_initAt (s : Settings) (h : ToldApart ms) {slot : Slot}
    (hslot : slot ∈ slots ms) :
    requestsFor (requests s ms) (initAt s slot)
      = (ms.filter (wants slot)).map (requestAt s slot) := by
  have hone : ∀ p ∈ ms, [variableRequest p.1.store, keysRequest s p.1.store p.2 p.1.keys].filter
      (·.init = initAt s slot) = if wants slot p then [requestAt s slot p] else [] := by
    intro p hp
    have hvariable : (variableRequest p.1.store).init = initAt s slot ↔ (p.1.store, none) = slot :=
      ⟨h.initAt_injOn s (mem_slots_of_mem hp (.inl rfl)) hslot, fun heq => heq ▸ rfl⟩
    have hkeys : (keysRequest s p.1.store p.2 p.1.keys).init = initAt s slot ↔
        (p.1.store, some p.2) = slot :=
      ⟨h.initAt_injOn s (mem_slots_of_mem hp (.inr rfl)) hslot, fun heq => heq ▸ rfl⟩
    obtain ⟨store, kind⟩ := slot
    simp only [List.filter_cons, List.filter_nil, hvariable, hkeys, Prod.mk.injEq, wants_eq_true,
      decide_eq_true_eq]
    by_cases hstore : p.1.store = store
    · subst hstore
      cases kind with
      | none => simp [requestAt]
      | some isState =>
          by_cases hstate : p.2 = isState
          · simp [requestAt, hstate]
          · simp [hstate, Ne.symm hstate]
    · simp [hstore, Ne.symm hstore]
  have hflat : ∀ l : List (Mapping × Bool),
      l.flatMap (fun p => if wants slot p then [requestAt s slot p] else [])
        = (l.filter (wants slot)).map (requestAt s slot) := by
    intro l
    induction l with
    | nil => rfl
    | cons p l ih =>
        rw [List.flatMap_cons, ih, List.filter_cons]
        split <;> rfl
  rw [requestsFor, requests, List.filter_flatMap, ← hflat]
  exact List.flatMap_congr hone

/-- The properties that mappings take out of a store differ, as the local names do. -/
theorem nodup_propertyTexts (h : ToldApart ms) (hnodup : (locals ms).Nodup) (store : String)
    (isState : Bool) : ((pairsOf ms store isState).map propertyText).Nodup := by
  have hlocals := hnodup.sublist (pairsOf_sublist ms store isState)
  have hproperty : ∀ pair ∈ pairsOf ms store isState, IsProperty pair := by
    intro pair hpair
    obtain ⟨p, hp, -, -, hkey⟩ := pair_mem_pairsOf.mp hpair
    exact (h.writable p hp).keys pair hkey
  rw [List.Nodup, List.pairwise_map] at hlocals ⊢
  refine hlocals.imp_of_mem fun hp hq hne heq => ?_
  exact hne (propertyText_snd_inj (hproperty _ hp) (hproperty _ hq) heq)

theorem pairsOf_ne_nil {p : Mapping × Bool} (hp : p ∈ ms) (hne : p.1.keys ≠ []) :
    pairsOf ms p.1.store p.2 ≠ [] := by
  obtain ⟨pair, hpair⟩ := List.exists_mem_of_ne_nil _ hne
  exact List.ne_nil_of_mem (pair_mem_pairsOf.mpr ⟨p, hp, rfl, rfl, hpair⟩)

/-- What is left over of the requests for a slot is its declaration. -/
theorem ofValue_initAt (s : Settings) (h : ToldApart ms) (hnodup : (locals ms).Nodup)
    (hne : ∀ p ∈ ms, p.1.keys ≠ []) {target : Script} (htarget : target.items = [])
    {slot : Slot} (hslot : slot ∈ slots ms) :
    Additions.OfValue (requests s ms) target (initAt s slot)
      = [(declaredAt ms slot).request s] := by
  have hrequests := requestsFor_initAt s h hslot
  obtain ⟨p, hp, hwants⟩ := mem_slots.mp hslot
  obtain ⟨first, others, hsome⟩ := List.exists_cons_of_ne_nil
    (List.ne_nil_of_mem (List.mem_filter.mpr ⟨hp, hwants⟩))
  have hpatterns : target.patternsFor (initAt s slot) = [] := by
    simp [Script.patternsFor, Script.initialized, htarget]
  have hnames : target.namesFor (initAt s slot) = [] := by
    rw [Script.namesFor, hpatterns]
    rfl
  have hproperties : target.propertiesFor (initAt s slot) = [] := by
    rw [Script.propertiesFor, hpatterns]
    rfl
  obtain ⟨store, kind⟩ := slot
  cases kind with
  | none =>
      have hname : Additions.nameAsked? (requests s ms) (initAt s (store, none))
          = some (storeVariable store) := by
        rw [Additions.nameAsked?, hrequests, hsome]
        rfl
      have hmode : Additions.modeFor (requests s ms) (initAt s (store, none)) = .viaConst := by
        simp [Additions.modeFor, hrequests, requestAt, variableRequest]
      have hlacking : Additions.lackingProperties (requests s ms) target
          (initAt s (store, none)) = [] := by
        simp [Additions.lackingProperties, hrequests, requestAt, variableRequest]
      rw [Additions.OfValue, hname, hmode, hlacking, hnames]
      rfl
  | some isState =>
      obtain ⟨hstore, hkind⟩ := wants_eq_true.mp hwants
      obtain rfl : store = p.1.store := hstore
      obtain rfl : isState = p.2 := by simpa using hkind
      have hname : Additions.nameAsked? (requests s ms) (initAt s (p.1.store, some p.2))
          = none := by
        simp [Additions.nameAsked?, hrequests, requestAt, keysRequest]
      have hmode : Additions.modeFor (requests s ms) (initAt s (p.1.store, some p.2))
          = mode s p.2 := by
        have hany : ((first :: others).map (requestAt s (p.1.store, some p.2))).any
            (·.mode == .viaLet) = (mode s p.2 == .viaLet) := by
          rw [List.any_map]
          cases hlet : mode s p.2 == .viaLet <;>
            simp [Function.comp_def, requestAt, keysRequest, hlet]
        rw [Additions.modeFor, hrequests, hsome, hany]
        unfold mode
        split <;> rfl
      have htexts : ((ms.filter (wants (p.1.store, some p.2))).map
          (requestAt s (p.1.store, some p.2))).flatMap (·.binding.texts)
            = (pairsOf ms p.1.store p.2).map propertyText := by
        rw [pairsOf, List.flatMap_map, List.map_flatMap]
        rfl
      have hlacking : Additions.lackingProperties (requests s ms) target
          (initAt s (p.1.store, some p.2)) = (pairsOf ms p.1.store p.2).map propertyText := by
        rw [Additions.lackingProperties, hrequests, htexts, hproperties,
          Entries.eraseDups_of_nodup (nodup_propertyTexts h hnodup _ _)]
        simp
      have hpairs : ((pairsOf ms p.1.store p.2).map propertyText).isEmpty = false := by
        rw [List.isEmpty_map, List.isEmpty_eq_false_iff]
        exact pairsOf_ne_nil hp (hne p hp)
      rw [Additions.OfValue, Additions.destructuring, hname, hmode, hlacking, hpairs]
      rfl

end

/-! ## Names that are bound -/

section

variable {ms : List (Mapping × Bool)}

/-- Where nothing occurs twice in all lists together, each element is in one list only. -/
theorem eq_of_mem_of_nodup {α β : Type} {l : List α} {f : α → List β} (hnodup : (l.flatMap f).Nodup)
    {a b : α} (ha : a ∈ l) (hb : b ∈ l) {x : β} (hx : x ∈ f a) (hx' : x ∈ f b) : a = b := by
  by_contra hne
  have : Std.Symm (Function.onFun List.Disjoint f) :=
    ⟨fun _ _ hdisjoint _ hleft hright => hdisjoint hright hleft⟩
  exact (List.nodup_flatMap.mp hnodup).2.forall ha hb hne hx hx'

theorem mem_names_declaredAt {store : String} {isState : Bool} {name : String} :
    name ∈ (declaredAt ms (store, some isState)).names ↔
      ∃ p ∈ ms, p.1.store = store ∧ p.2 = isState ∧ name ∈ p.1.keys.map (·.2) := by
  simp only [declaredAt, Declared.names, List.mem_map, pair_mem_pairsOf]
  constructor
  · rintro ⟨pair, ⟨p, hp, rfl, rfl, hpair⟩, rfl⟩
    exact ⟨p, hp, rfl, rfl, pair, hpair, rfl⟩
  · rintro ⟨p, hp, rfl, rfl, pair, hpair, rfl⟩
    exact ⟨pair, ⟨p, hp, rfl, rfl, hpair⟩, rfl⟩

/-- A name is bound at one slot only. -/
theorem ToldApart.slot_eq_of_bound (h : ToldApart ms) (hnodup : (locals ms).Nodup) {a b : Slot}
    (ha : a ∈ slots ms) (hb : b ∈ slots ms) {name : String} (hname : name ∈ (declaredAt ms a).names)
    (hname' : name ∈ (declaredAt ms b).names) : a = b := by
  obtain ⟨p, hp, hwants⟩ := mem_slots.mp ha
  obtain ⟨q, hq, hwants'⟩ := mem_slots.mp hb
  obtain ⟨store, kind⟩ := a
  obtain ⟨store', kind'⟩ := b
  obtain rfl : store = p.1.store := (wants_eq_true.mp hwants).1
  obtain rfl : store' = q.1.store := (wants_eq_true.mp hwants').1
  have hlocal : ∀ {store : String} {isState : Bool},
      name ∈ (declaredAt ms (store, some isState)).names → name ∈ locals ms := by
    intro store isState hmem
    obtain ⟨p, hp, -, -, hkey⟩ := mem_names_declaredAt.mp hmem
    exact List.mem_flatMap.mpr ⟨p, hp, hkey⟩
  have hvariable : ∀ {store : String}, name ∈ (declaredAt ms (store, none)).names →
      name = storeVariable store := List.mem_singleton.mp
  cases kind <;> cases kind'
  · rw [h.ownVariable p hp q hq ((hvariable hname).symm.trans (hvariable hname'))]
  · exact absurd (hvariable hname ▸ hlocal hname') (h.notLocal p hp)
  · exact absurd (hvariable hname' ▸ hlocal hname) (h.notLocal q hq)
  · obtain ⟨p', hp', hstore, rfl, hkey⟩ := mem_names_declaredAt.mp hname
    obtain ⟨q', hq', hstore', rfl, hkey'⟩ := mem_names_declaredAt.mp hname'
    rw [← hstore, ← hstore', eq_of_mem_of_nodup hnodup hp' hq' hkey hkey']

theorem ToldApart.nodup_names (h : ToldApart ms) (hnodup : (locals ms).Nodup) :
    ((declared ms).flatMap Declared.names).Nodup := by
  rw [declared, List.flatMap_map, List.nodup_flatMap]
  constructor
  · rintro ⟨store, none | isState⟩ -
    · exact List.nodup_singleton _
    · exact hnodup.sublist (pairsOf_sublist ms store isState)
  · refine nodup_slots.imp_of_mem fun ha hb hne name hname hname' => ?_
    exact hne (h.slot_eq_of_bound hnodup ha hb hname hname')

/-- A local name is bound by the keys of its own store alone. -/
theorem ToldApart.filter_declared (h : ToldApart ms) (hnodup : (locals ms).Nodup)
    {p : Mapping × Bool} (hp : p ∈ ms) {pair : String × String} (hpair : pair ∈ p.1.keys) :
    (declared ms).filter (pair.2 ∈ ·.names)
      = [.keys p.1.store p.2 (pairsOf ms p.1.store p.2)] := by
  have hslot : (p.1.store, some p.2) ∈ slots ms := mem_slots_of_mem hp (.inr rfl)
  have hbound : pair.2 ∈ (declaredAt ms (p.1.store, some p.2)).names :=
    mem_names_declaredAt.mpr ⟨p, hp, rfl, rfl, List.mem_map_of_mem hpair⟩
  have hiff : ∀ slot ∈ slots ms, decide (pair.2 ∈ (declaredAt ms slot).names)
      = (slot == (p.1.store, some p.2)) := by
    intro slot hmem
    rw [Bool.eq_iff_iff, decide_eq_true_iff, beq_iff_eq]
    exact ⟨fun hname => h.slot_eq_of_bound hnodup hmem hslot hname hbound, fun heq => heq ▸ hbound⟩
  rw [declared, List.filter_map]
  simp only [Function.comp_def]
  rw [List.filter_congr hiff, List.filter_beq, List.count_eq_one_of_mem nodup_slots hslot]
  rfl

theorem variable_mem_declared {store : String} :
    .variable_ store ∈ declared ms ↔ ∃ p ∈ ms, p.1.store = store := by
  have hslot : Declared.variable_ store = declaredAt ms (store, none) := rfl
  rw [declared, hslot, List.mem_map_of_injective (declaredAt_injective ms), mem_slots]
  refine exists_congr fun p => and_congr_right fun _ => ?_
  rw [wants_eq_true]
  exact ⟨fun hwants => hwants.1.symm, fun hstore => ⟨hstore.symm, .inl rfl⟩⟩

end

/-! ## Merged stores -/

/-- Declarations merge mappings: each store that is mapped has one variable, no name is
bound twice, and every local name is bound by one declaration, which takes its key out of
its own store. -/
structure MergesStores (ms : List (Mapping × Bool)) (ds : List Declared) : Prop where
  oneVariable : ∀ store, ds.count (.variable_ store) = if ∃ p ∈ ms, p.1.store = store then 1 else 0
  nodup : (ds.flatMap Declared.names).Nodup
  bound : ∀ p ∈ ms, ∀ pair ∈ p.1.keys, ∃ pairs, pair ∈ pairs ∧
    ds.filter (pair.2 ∈ ·.names) = [.keys p.1.store p.2 pairs]

section

variable {ms : List (Mapping × Bool)}

theorem ToldApart.mergesStores (h : ToldApart ms) (hnodup : (locals ms).Nodup) :
    MergesStores ms (declared ms) where
  oneVariable store := by
    rw [nodup_declared.count]
    exact if_congr variable_mem_declared rfl rfl
  nodup := h.nodup_names hnodup
  bound p hp pair hpair := ⟨_, pair_mem_pairsOf.mpr ⟨p, hp, rfl, rfl, hpair⟩,
    h.filter_declared hnodup hp hpair⟩

variable {ds : List Declared}

theorem MergesStores.variable_mem (h : MergesStores ms ds) {p : Mapping × Bool} (hp : p ∈ ms) :
    .variable_ p.1.store ∈ ds := by
  have hcount := h.oneVariable p.1.store
  rw [if_pos ⟨p, hp, rfl⟩] at hcount
  exact List.count_pos_iff.mp (hcount ▸ Nat.zero_lt_one)

/-- Names that cannot be told apart are not merged by any declarations. -/
theorem MergesStores.toldApart (h : MergesStores ms ds) (hwritable : ∀ p ∈ ms, p.1.IsWritable) :
    ToldApart ms := by
  refine ⟨hwritable, fun p hp q hq heq => ?_, fun p hp hlocal => ?_⟩
  · exact Declared.variable_.inj (eq_of_mem_of_nodup h.nodup (h.variable_mem hp)
      (h.variable_mem hq) (List.mem_singleton_self _) (List.mem_singleton.mpr heq))
  · obtain ⟨q, hq, hname⟩ := List.mem_flatMap.mp hlocal
    obtain ⟨pair, hpair, hbound⟩ := List.mem_map.mp hname
    obtain ⟨pairs, -, hfilter⟩ := h.bound q hq pair hpair
    have hmem : Declared.variable_ p.1.store ∈ ds.filter (pair.2 ∈ ·.names) :=
      List.mem_filter.mpr ⟨h.variable_mem hp, by simp [Declared.names, hbound]⟩
    rw [hfilter] at hmem
    cases List.mem_singleton.mp hmem

/-- The lines that a merge adds to an empty script for mappings. -/
theorem declarations_hoistedFor {c : Collected} {s : Settings} {target : Script}
    (hc : c.declarations = requests s ms) (h : ToldApart ms) (hnodup : (locals ms).Nodup)
    (hne : ∀ p ∈ ms, p.1.keys ≠ []) (htarget : target.items = []) :
    (c.hoistedFor target s).declarations = (declared ms).map fun d => (d.request s).text := by
  have hnone : ∀ source, (Additions.OfModule s c.imports target source).aliases = [] := by
    intro source
    have hbound : target.boundFrom source = [] := by
      simp [Script.boundFrom, Script.importsFrom, htarget]
    have halias : ∀ wanted, Additions.aliasFor wanted [] = none := by
      intro wanted
      cases wanted <;> rfl
    simp [Additions.OfModule, Script.defaultsFrom, Script.wildcardsFrom, hbound, halias]
  have haliases : (c.additions target s).aliases = [] :=
    List.flatMap_eq_nil_iff.mpr fun source _ => hnone source
  have hvalues : c.values = (slots ms).map (initAt s) := by
    rw [Collected.values, hc, init_requests s h]
  have hdeclarations : (c.additions target s).declarations.map (·.2)
      = (declared ms).map (·.request s) := by
    rw [Collected.additions, hvalues, hc, List.flatMap_map, List.map_flatMap, declared,
      List.map_map, List.map_eq_flatMap]
    refine List.flatMap_congr fun slot hslot => ?_
    rw [List.map_map, ofValue_initAt s h hnodup hne htarget hslot]
    rfl
  rw [Collected.hoistedFor_eq_hoisted, Additions.hoisted, haliases, List.map_nil, List.nil_append]
  have htexts := congrArg (List.map DeclarationRequest.text) hdeclarations
  rwa [List.map_map, List.map_map] at htexts

end

/-- What the first pass hoists merges the mappings of the options object, where names are
told apart and further plugins declare nothing: against an empty script, its declarations
are a variable for each store and one destructuring for the state and one for the actions
of a store. -/
theorem transformOptions_mergesStores {script : Script} {options : Options} {object : Script.Tree}
    {pass : OptionsPass}
    (hpass : transformOptions script object options.allPlugins options.settings = .ok pass)
    (hfurther : ∀ p ∈ options.plugins, p.2.DeclaresNothing options.settings)
    (h : ToldApart (mappings object)) {target : Script} (htarget : target.items = []) :
    (pass.collected.hoistedFor target options.settings).declarations
      = (declared (mappings object)).map (fun d => (d.request options.settings).text) ∧
    MergesStores (mappings object) (declared (mappings object)) := by
  obtain ⟨pre, post, hplugins, hothers⟩ := exists_allPlugins_eq hfurther
  rw [hplugins] at hpass
  have hnodup := nodup_locals hothers hpass
  have hne : ∀ p ∈ mappings object, p.1.keys ≠ [] := fun _ => keys_ne_nil_of_mem_mappings
  have hrequests : pass.collected.declarations = requests options.settings (mappings object) := by
    rw [declarations_of_pass hothers hpass]
    exact List.flatMap_congr fun p hp =>
      declarations_fragments options.settings (h.writable p hp) (hne p hp) p.2
  exact ⟨declarations_hoistedFor hrequests h hnodup hne htarget, h.mergesStores hnodup⟩

/-! ## Components with stores -/

/-- A script without items. -/
def emptyScript : Script := ⟨"", {}, .node .program ⟨0, 0⟩ []⟩

theorem transformOptions_mergesStores_twoStores :
    let source := "export default \x7b computed: \x7b ...mapState(useCartStore, ['items']), " ++
      "...mapGetters(user, \x7b who: 'name' \x7d) \x7d, " ++
      "methods: \x7b ...mapActions(useCartStore, ['add']) \x7d \x7d"
    ∃ script object pass, passOver {} source = some (script, object, pass) ∧
      ToldApart (mappings object) ∧
      (pass.collected.hoistedFor emptyScript {}).declarations
        = ["const cartStore = useCartStore()",
          "const \x7b\n  items,\n\x7d = storeToRefs(cartStore)",
          "const userStore = user()",
          "const \x7b\n  name: who,\n\x7d = storeToRefs(userStore)",
          "const \x7b\n  add,\n\x7d = cartStore"] ∧
      MergesStores (mappings object) (declared (mappings object)) := by
  intro source
  have hrun : (passOver {} source).map (fun p => (decide (ToldApart (mappings p.2.1)),
      (declared (mappings p.2.1)).map fun d => (d.request {}).text)) = some (true,
        ["const cartStore = useCartStore()",
          "const \x7b\n  items,\n\x7d = storeToRefs(cartStore)",
          "const userStore = user()",
          "const \x7b\n  name: who,\n\x7d = storeToRefs(userStore)",
          "const \x7b\n  add,\n\x7d = cartStore"]) := by
    decide +kernel
  obtain ⟨⟨script, object, pass⟩, hpass, hmappings⟩ := Option.map_eq_some_iff.mp hrun
  obtain ⟨htold, htexts⟩ := Prod.mk.inj hmappings
  have h := of_decide_eq_true htold
  have hempty : emptyScript.items = [] := rfl
  obtain ⟨hdeclarations, hmerges⟩ := transformOptions_mergesStores
    (transformOptions_of_passOver hpass) (List.forall_mem_nil _) h hempty
  exact ⟨script, object, pass, hpass, h, hdeclarations.trans htexts, hmerges⟩

/-- Two stores whose names give the same variable are not merged: it is declared twice,
and the keys of both are taken out of one of them. -/
theorem transformOptions_sharedVariable :
    let source := "export default \x7b computed: \x7b ...mapState(useCartStore, ['items']), " ++
      "...mapState(cart, ['total']) \x7d \x7d"
    ∃ script object pass, passOver {} source = some (script, object, pass) ∧
      (pass.collected.hoistedFor emptyScript {}).declarations
        = ["const cartStore = useCartStore()",
          "const \x7b\n  items,\n  total,\n\x7d = storeToRefs(cartStore)",
          "const cartStore = cart()"] ∧
      ¬ ∃ ds, MergesStores (mappings object) ds := by
  intro source
  have hrun : (passOver {} source).map (fun p =>
      ((p.2.2.collected.hoistedFor emptyScript {}).declarations,
        (mappings p.2.1).all (·.1.IsWritable), decide (ToldApart (mappings p.2.1))))
      = some (["const cartStore = useCartStore()",
          "const \x7b\n  items,\n  total,\n\x7d = storeToRefs(cartStore)",
          "const cartStore = cart()"], true, false) := by
    decide +kernel
  obtain ⟨⟨script, object, pass⟩, hpass, hmappings⟩ := Option.map_eq_some_iff.mp hrun
  simp only [Prod.mk.injEq] at hmappings
  obtain ⟨hdeclarations, hwritable, htold⟩ := hmappings
  refine ⟨script, object, pass, hpass, hdeclarations, ?_⟩
  rintro ⟨ds, hmerges⟩
  exact of_decide_eq_false htold (hmerges.toldApart (by simpa using hwritable))

end Recompose.Store
