import Mathlib.Data.List.Nodup
import Recompose.Proofs.Entries
import Recompose.Proofs.PluginFaults
import Recompose.Registry

/-!
# Registering names one after the other

Names are registered in order until one of them repeats an earlier one. A list
either has no repetition, and then the registry holds it as it is, or it has one
first repetition, and that is the name the error tells.
-/

namespace Recompose

/-- The name at the first place of a list that repeats an earlier place. -/
def IsFirstRepeat (names : List String) (name : String) : Prop :=
  ∃ before after, names = before ++ name :: after ∧ before.Nodup ∧ name ∈ before

theorem IsFirstRepeat.not_nodup {names : List String} {name : String}
    (h : IsFirstRepeat names name) : ¬ names.Nodup := by
  obtain ⟨before, after, rfl, -, hmem⟩ := h
  intro hnodup
  have hdisjoint := (List.nodup_append.mp hnodup).2.2
  exact hdisjoint name hmem name (List.mem_cons_self ..) rfl

/-- A list that has a repetition has a first one. -/
theorem exists_isFirstRepeat {names : List String} (h : ¬ names.Nodup) :
    ∃ name, IsFirstRepeat names name := by
  induction names using List.reverseRecOn with
  | nil => exact absurd List.nodup_nil h
  | append_singleton names last ih =>
      by_cases hnames : names.Nodup
      · have hmem : last ∈ names := by
          by_contra hlast
          rw [← List.concat_eq_append] at h
          exact h (List.Nodup.concat hlast hnames)
        exact ⟨last, names, [], rfl, hnames, hmem⟩
      · obtain ⟨name, before, after, rfl, hbefore, hmem⟩ := ih hnames
        exact ⟨name, before, after ++ [last], by simp, hbefore, hmem⟩

namespace Registry

theorem registered_iff_mem_names {entries : Entries PropertyRecord} {name : String} :
    entries.has name = true ↔ name ∈ entries.names := by
  have hnone : entries.get? name = none ↔ name ∉ entries.names := by
    unfold Entries.get? Entries.names
    rw [List.lookup_eq_none_iff, List.mem_map]
    constructor
    · rintro h ⟨p, hp, rfl⟩
      exact bne_iff_ne.mp (h p hp) rfl
    · intro h p hp
      exact bne_iff_ne.mpr fun heq => h ⟨p, hp, heq.symm⟩
  rw [Entries.has, Option.isSome_iff_ne_none, Ne, hnone, not_not]

theorem register_of_not_mem {r : Registry} {name : String} (h : name ∉ r.entries.names)
    (record : PropertyRecord) :
    r.register name record.source record.exposed = .ok ⟨r.entries ++ [(name, record)]⟩ := by
  rw [register, if_neg (registered_iff_mem_names.not.mpr h)]

theorem register_of_mem {r : Registry} {name : String} (h : name ∈ r.entries.names)
    (record : PropertyRecord) :
    r.register name record.source record.exposed = .error (.duplicateProperty name) := by
  rw [register, if_pos (registered_iff_mem_names.mpr h)]

/-- Where no name is registered twice, a name is found with its only record. -/
theorem get?_eq_some_iff {r : Registry} (h : r.entries.names.Nodup) {name : String}
    {record : PropertyRecord} : r.get? name = some record ↔ (name, record) ∈ r.entries := by
  constructor
  · exact Entries.mem_of_get?
  · intro hmem
    obtain ⟨front, back, hsplit⟩ := List.mem_iff_append.mp hmem
    refine List.lookup_eq_some_iff.mpr ⟨front, back, hsplit, ?_⟩
    intro p hp
    rw [hsplit, Entries.names, List.map_append, List.map_cons] at h
    have hdisjoint := (List.nodup_append.mp h).2.2 p.1 (List.mem_map_of_mem hp) name
      (List.mem_cons_self ..)
    exact bne_iff_ne.mpr hdisjoint.symm

/-- Registers names with their records, one after the other. -/
def registerAll (r : Registry) (records : Entries PropertyRecord) :
    Except TransformError Registry :=
  records.foldlM (fun r p => r.register p.1 p.2.source p.2.exposed) r

variable {records : Entries PropertyRecord}

theorem registerAll_append (r : Registry) (front back : Entries PropertyRecord) :
    r.registerAll (front ++ back) = r.registerAll front >>= (·.registerAll back) :=
  List.foldlM_append

theorem registerAll_cons (r : Registry) (p : String × PropertyRecord)
    (records : Entries PropertyRecord) :
    r.registerAll (p :: records)
      = r.register p.1 p.2.source p.2.exposed >>= (·.registerAll records) :=
  List.foldlM_cons

/-- Names without a repetition are registered as they are. -/
theorem registerAll_of_nodup (h : records.names.Nodup) :
    registerAll {} records = .ok ⟨records⟩ := by
  induction records using List.reverseRecOn with
  | nil => rfl
  | append_singleton records p ih =>
      rw [Entries.names, List.map_append, List.map_singleton] at h
      obtain ⟨hrecords, -, hnew⟩ := List.nodup_append.mp h
      have hp : p.1 ∉ Entries.names records := fun hmem =>
        hnew p.1 hmem p.1 (List.mem_singleton_self _) rfl
      rw [registerAll_append, ih hrecords]
      show registerAll ⟨records⟩ [p] = _
      rw [registerAll_cons, register_of_not_mem hp]
      rfl

/-- The first name that repeats an earlier one cannot be registered. -/
theorem registerAll_of_isFirstRepeat {name : String} (h : IsFirstRepeat records.names name) :
    registerAll {} records = .error (.duplicateProperty name) := by
  obtain ⟨before, after, hnames, hbefore, hmem⟩ := h
  obtain ⟨front, rest, rfl, rfl, hrest⟩ := List.map_eq_append_iff.mp hnames
  obtain ⟨p, back, rfl, rfl, -⟩ := List.map_eq_cons_iff.mp hrest
  rw [registerAll_append, registerAll_of_nodup hbefore]
  show registerAll ⟨front⟩ (p :: back) = _
  rw [registerAll_cons, register_of_mem hmem]
  rfl

theorem registerAll_eq_error_iff {e : TransformError} :
    registerAll {} records = .error e ↔
      ∃ name, IsFirstRepeat records.names name ∧ e = .duplicateProperty name := by
  constructor
  · intro h
    have hrepeats : ¬ records.names.Nodup := by
      intro hnodup
      rw [registerAll_of_nodup hnodup] at h
      cases h
    obtain ⟨name, hname⟩ := exists_isFirstRepeat hrepeats
    rw [registerAll_of_isFirstRepeat hname] at h
    cases h
    exact ⟨name, hname, rfl⟩
  · rintro ⟨name, hname, rfl⟩
    exact registerAll_of_isFirstRepeat hname

theorem registerAll_eq_ok_iff {r : Registry} :
    registerAll {} records = .ok r ↔ records.names.Nodup ∧ r = ⟨records⟩ := by
  constructor
  · intro h
    have hnodup : records.names.Nodup := by
      by_contra hrepeats
      obtain ⟨name, hname⟩ := exists_isFirstRepeat hrepeats
      rw [registerAll_of_isFirstRepeat hname] at h
      cases h
    rw [registerAll_of_nodup hnodup] at h
    cases h
    exact ⟨hnodup, rfl⟩
  · rintro ⟨hnodup, rfl⟩
    exact registerAll_of_nodup hnodup

end Registry

end Recompose
