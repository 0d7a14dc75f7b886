import Mathlib.Data.List.Induction
import Recompose.Proofs.ComponentRoundTrip

/-!
# Which blocks are filed

The scanner files each block at its place as it reads it. This module says what is
filed in the end, of all blocks at once: the first one of a kind that may stand once,
every one of a kind that may stand often, and a fault for each block whose place was
taken (`foldl_file_eq_filedBlocks`). No block is lost on the way
(`perm_filedBlocks`).
-/

namespace Recompose

/-! ## Places -/

/-- The places of a descriptor. -/
inductive Place where
  | template
  | script
  | scriptSetup
  | styles
  | customBlocks
deriving DecidableEq

/-- A place that takes one block only. -/
def Place.isSingle : Place → Bool
  | template | script | scriptSetup => true
  | styles | customBlocks => false

/-- The place at which a block is filed. -/
def Block.place (b : Block) : Place :=
  if b.tag = "template" then .template
  else if b.tag = "script" then if b.isSetup then .scriptSetup else .script
  else if b.tag = "style" then .styles
  else .customBlocks

/-- The fault that a block is whose place is taken. -/
def Block.fault (b : Block) : BlockError := ⟨.duplicate b.label, b.span⟩

section

variable {b : Block}

theorem Block.place_eq_template_iff : b.place = .template ↔ b.tag = "template" := by
  grind [Block.place]

theorem Block.place_eq_script_iff :
    b.place = .script ↔ b.tag = "script" ∧ b.isSetup = false := by
  grind [Block.place]

theorem Block.place_eq_scriptSetup_iff :
    b.place = .scriptSetup ↔ b.tag = "script" ∧ b.isSetup = true := by
  grind [Block.place]

theorem Block.place_eq_styles_iff : b.place = .styles ↔ b.tag = "style" := by
  grind [Block.place]

theorem Block.place_eq_customBlocks_iff : b.place = .customBlocks ↔ b.tag ∉ knownTags := by
  grind [Block.place, knownTags]

end

/-! ## Filing -/

/-- Whether blocks filed before have taken the place of a block. -/
def Block.isTaken (b : Block) (earlier : List Block) : Bool :=
  b.place.isSingle && earlier.any (·.place = b.place)

/-- The blocks whose place was taken when they were read. -/
def repeatedBlocks (bs : List Block) : List Block :=
  (bs.zipIdx.filter fun (b, i) => b.isTaken (bs.take i)).map Prod.fst

/-- A single place is taken when a block was found for it. -/
theorem Block.isTaken_eq (b : Block) (bs : List Block) :
    b.isTaken bs = (b.place.isSingle && (bs.find? (·.place = b.place)).isSome) := by
  rw [Block.isTaken]
  congr 1
  rw [Bool.eq_iff_iff, List.find?_isSome, List.any_eq_true]

theorem repeatedBlocks_concat (bs : List Block) (b : Block) :
    repeatedBlocks (bs ++ [b])
      = repeatedBlocks bs ++ if b.isTaken bs then [b] else [] := by
  have hearlier : ∀ x ∈ bs.zipIdx,
      x.1.isTaken ((bs ++ [b]).take x.2) = x.1.isTaken (bs.take x.2) := by
    intro x hx
    have hlt := (List.mem_zipIdx hx).2.1
    rw [List.take_append_of_le_length (by omega)]
  unfold repeatedBlocks
  rw [List.zipIdx_append, List.filter_append, List.map_append, List.filter_congr hearlier]
  cases h : b.isTaken bs <;> simp [h]

/-- What all blocks are filed as: at a single place the first one, at the others
all of them in order, and a fault for each one whose place was taken. -/
def filedBlocks (bs : List Block) : Scan where
  descriptor :=
    { template := bs.find? (·.place = .template)
      script := bs.find? (·.place = .script)
      scriptSetup := bs.find? (·.place = .scriptSetup)
      styles := bs.filter (·.place = .styles)
      customBlocks := bs.filter (·.place = .customBlocks) }
  errors := (repeatedBlocks bs).map Block.fault

/-- One more block. -/
theorem file_filedBlocks (bs : List Block) (b : Block) :
    (filedBlocks bs).file b = filedBlocks (bs ++ [b]) := by
  unfold filedBlocks
  rw [repeatedBlocks_concat, Block.isTaken_eq]
  cases hp : b.place with
  | template =>
      have htag := Block.place_eq_template_iff.mp hp
      cases hfound : bs.find? (·.place = .template) <;>
        simp [Scan.file, htag, hp, Place.isSingle, List.find?_append, hfound, Block.fault]
  | script =>
      obtain ⟨htag, hsetup⟩ := Block.place_eq_script_iff.mp hp
      cases hfound : bs.find? (·.place = .script) <;>
        simp [Scan.file, htag, hsetup, hp, Place.isSingle, List.find?_append, hfound,
          Block.fault]
  | scriptSetup =>
      obtain ⟨htag, hsetup⟩ := Block.place_eq_scriptSetup_iff.mp hp
      cases hfound : bs.find? (·.place = .scriptSetup) <;>
        simp [Scan.file, htag, hsetup, hp, Place.isSingle, List.find?_append, hfound,
          Block.fault]
  | styles =>
      have htag := Block.place_eq_styles_iff.mp hp
      simp [Scan.file, htag, hp, Place.isSingle, List.find?_append]
  | customBlocks =>
      have htag := Block.place_eq_customBlocks_iff.mp hp
      simp only [knownTags, List.mem_cons, List.not_mem_nil, or_false, not_or] at htag
      simp [Scan.file, htag, hp, Place.isSingle, List.find?_append]

theorem foldl_file_eq_filedBlocks (bs : List Block) : bs.foldl Scan.file {} = filedBlocks bs := by
  induction bs using List.reverseRecOn with
  | nil => rfl
  | append_singleton bs b ih => rw [List.foldl_append, ih, List.foldl_cons, file_filedBlocks]; rfl

/-- No block is lost, and none stands at two places. -/
theorem perm_filedBlocks (bs : List Block) :
    ((filedBlocks bs).descriptor.blocks ++ repeatedBlocks bs).Perm bs := by
  induction bs using List.reverseRecOn with
  | nil => exact .nil
  | append_singleton bs b ih =>
      rw [List.perm_iff_count] at ih ⊢
      intro x
      have hx := ih x
      rw [repeatedBlocks_concat, Block.isTaken_eq]
      simp only [filedBlocks, Descriptor.blocks, List.count_append, List.find?_append,
        List.filter_append] at hx ⊢
      cases hp : b.place with
      | template =>
          cases hfound : bs.find? (·.place = .template) <;>
            simp [hp, Place.isSingle, hfound] at hx ⊢ <;> omega
      | script =>
          cases hfound : bs.find? (·.place = .script) <;>
            simp [hp, Place.isSingle, hfound] at hx ⊢ <;> omega
      | scriptSetup =>
          cases hfound : bs.find? (·.place = .scriptSetup) <;>
            simp [hp, Place.isSingle, hfound] at hx ⊢ <;> omega
      | styles => simp [hp, Place.isSingle] at hx ⊢ ; omega
      | customBlocks => simp [hp, Place.isSingle] at hx ⊢ ; omega

/-- Blocks are filed in the slots of their kinds. -/
theorem slotted_filedBlocks (bs : List Block) : (filedBlocks bs).descriptor.Slotted where
  template := fun _ hb => Block.place_eq_template_iff.mp (by simpa using List.find?_some hb)
  script := fun _ hb => Block.place_eq_script_iff.mp (by simpa using List.find?_some hb)
  scriptSetup := fun _ hb => Block.place_eq_scriptSetup_iff.mp (by simpa using List.find?_some hb)
  styles := fun _ hb => Block.place_eq_styles_iff.mp (by simpa using (List.mem_filter.mp hb).2)
  customBlocks := fun _ hb =>
    Block.place_eq_customBlocks_iff.mp (by simpa using (List.mem_filter.mp hb).2)

/-! ## The whole file -/

/-- The blocks of a file in the order of the file. -/
def blocksRead (source : String) : List Block :=
  (readBlocks (byteSize source.toList) source.toList).1

theorem scan_eq (source : String) :
    scan source = { filedBlocks (blocksRead source) with
      errors := (repeatedBlocks (blocksRead source)).map Block.fault
        ++ (readBlocks (byteSize source.toList) source.toList).2.toList } := by
  have hscan : scan source = { (blocksRead source).foldl Scan.file {} with
      errors := ((blocksRead source).foldl Scan.file {}).errors
        ++ (readBlocks (byteSize source.toList) source.toList).2.toList } := rfl
  rw [hscan, foldl_file_eq_filedBlocks]
  rfl

theorem repeatedBlocks_sublist (bs : List Block) : (repeatedBlocks bs).Sublist bs := by
  have hsub := (List.filter_sublist (l := bs.zipIdx)
    (p := fun (b, i) => b.isTaken (bs.take i))).map Prod.fst
  rwa [List.zipIdx_map_fst] at hsub

/-- The blocks of a scanned file stand in the slots of their kinds, and were read. -/
theorem slotted_scan (source : String) :
    (scan source).descriptor.Slotted ∧
      ∀ b ∈ (scan source).descriptor.blocks, b ∈ blocksRead source := by
  rw [scan_eq]
  refine ⟨slotted_filedBlocks _, fun b hb => ?_⟩
  exact (perm_filedBlocks _).subset (List.mem_append_left _ hb)

end Recompose
