import Recompose.Proofs.DiskWrites
import Recompose.Run

/-!
# What handling a file writes

Delivering a verdict on a file has one effect at most: a text at a location. The
text is what the file is transformed to, and it goes to the place of the file if it
is new, or to the output path. A file whose handling fails has no effect.
-/

namespace Recompose

/-! ## Delivering -/

/-- Where the text of a file goes. -/
def Mode.place (mode : Mode) (path : Path) : Path :=
  match mode with
  | .write (some out) => out
  | _ => path

/-- The location and the text that delivering a verdict writes, if it writes at
all. -/
def effect? (mode : Mode) (disk : Disk) (path : Path) (verdict : Verdict) :
    Option (Location × String) :=
  match verdict.write? path mode with
  | none => none
  | some (place, text) =>
    match disk.target place with
    | .ok loc => some (loc, text)
    | .error _ => none

section

variable {mode : Mode} {disk disk' : Disk} {path : Path} {verdict : Verdict} {loc : Location}
  {text : String}

/-- The disk after delivering is changed by the effect alone. -/
theorem deliver_snd : (deliver mode disk path verdict).2
    = match effect? mode disk path verdict with
      | some (loc, text) => disk.put loc text
      | none => disk := by
  unfold deliver effect? Disk.write
  cases verdict.write? path mode with
  | none => rfl
  | some w => cases htarget : disk.target w.1 <;> simp only [htarget, Except.map]

/-- The status of what has an effect is that of the verdict. -/
theorem status_deliver (h : (effect? mode disk path verdict).isSome = true) :
    (verdict.write? path mode).isSome = true ∧
      (deliver mode disk path verdict).1.status = verdict.status mode := by
  unfold effect? at h
  unfold deliver Disk.write
  cases hwrite : verdict.write? path mode with
  | none =>
      rw [hwrite] at h
      cases h
  | some w =>
      cases htarget : disk.target w.1 with
      | error fault =>
          simp only [hwrite, htarget] at h
          cases h
      | ok loc => simp only [htarget, Except.map, Option.isSome_some, and_self]

/-- What is delivered depends on names and locks only. -/
theorem deliver_alike (h : disk.Alike disk') (mode : Mode) (path : Path) (verdict : Verdict) :
    effect? mode disk' path verdict = effect? mode disk path verdict ∧
      (deliver mode disk' path verdict).1 = (deliver mode disk path verdict).1 := by
  unfold deliver effect? Disk.write
  cases verdict.write? path mode with
  | none => exact ⟨rfl, rfl⟩
  | some w =>
      cases htarget : disk.target w.1 <;> simp only [h.target, htarget, Except.map, and_self]

/-- Only a text that a file was transformed to is written, and in the place of the
file only when it is new. -/
theorem write?_eq_some {place : Path} (h : verdict.write? path mode = some (place, text)) :
    place = mode.place path ∧ ∃ changed, verdict = .done text changed ∧
      (mode = .write none ∧ changed = true ∨ ∃ out, mode = .write (some out)) := by
  unfold Verdict.write? at h
  split at h
  · cases h
    exact ⟨rfl, true, rfl, .inl ⟨rfl, rfl⟩⟩
  · cases h
    exact ⟨rfl, _, rfl, .inr ⟨_, rfl⟩⟩
  · cases h

theorem judge_eq_done {options : Options} {content : Except DiskFault String} {changed : Bool}
    (h : judge options content = .done text changed) :
    ∃ source, content = .ok source ∧ transformFile source options = .ok text ∧
      (changed = true ↔ text ≠ source) := by
  unfold judge at h
  split at h
  · cases h
  · rename_i source
    split at h
    · rename_i htext
      cases h
      exact ⟨source, rfl, htext, bne_iff_ne⟩
    · cases h

end

/-! ## What a run writes -/

namespace Plan

/-- Handling the file at a path writes a text to a location: what the file is
transformed to, in its own place if that is new, or to the output path. -/
structure Writes (plan : Plan) (disk : Disk) (path : Path) (loc : Location) (text : String) :
    Prop where
  listed : path ∈ plan.files
  transformed : ∃ source, disk.read path = .ok source ∧
    transformFile source plan.options = .ok text ∧
    (plan.mode = .write none ∧ text ≠ source ∧ disk.locate path = .ok loc ∨
      ∃ out, plan.mode = .write (some out))
  target : disk.target (plan.mode.place path) = .ok loc

/-- What comes of a file that is handled alone. -/
def alone (plan : Plan) (disk : Disk) (path : Path) : Report × Disk :=
  handleFile plan.options plan.mode disk path

/-- The effect of handling a file alone. -/
def effect? (plan : Plan) (disk : Disk) (path : Path) : Option (Location × String) :=
  Recompose.effect? plan.mode disk path (judge plan.options (disk.read path))

variable {plan : Plan} {disk : Disk} {path : Path} {loc : Location} {text : String}

/-- A file has an effect where it is written. -/
theorem effect?_eq_some_iff (hlisted : path ∈ plan.files) :
    plan.effect? disk path = some (loc, text) ↔ plan.Writes disk path loc text := by
  unfold effect? Recompose.effect?
  constructor
  · intro h
    split at h
    · cases h
    rename_i place t hwrite
    split at h
    · rename_i l htarget
      cases h
      obtain ⟨rfl, changed, hdone, hmode⟩ := write?_eq_some hwrite
      obtain ⟨source, hread, htext, hchanged⟩ := judge_eq_done hdone
      refine ⟨hlisted, ⟨source, hread, htext, hmode.imp ?_ id⟩, htarget⟩
      rintro ⟨hmode, hnew⟩
      rw [hmode] at htarget
      exact ⟨hmode, hchanged.mp hnew, (Disk.locate_of_target htarget).1⟩
    · cases h
  · rintro ⟨-, ⟨source, hread, htext, hmode⟩, htarget⟩
    have hjudge : judge plan.options (disk.read path) = .done text (text != source) := by
      rw [hread]
      simp only [judge, htext]
    have hwrite : Verdict.write? path plan.mode (.done text (text != source))
        = some (plan.mode.place path, text) := by
      rcases hmode with ⟨hmode, hnew, -⟩ | ⟨out, hmode⟩
      · rw [hmode, bne_iff_ne.mpr hnew]
        rfl
      · rw [hmode]
        rfl
    simp only [hjudge, hwrite, htarget]

/-- Handling a file alone changes the disk by its effect alone. -/
theorem alone_snd : (plan.alone disk path).2
    = match plan.effect? disk path with
      | some (loc, text) => disk.put loc text
      | none => disk :=
  deliver_snd

/-- A file that is handled alone changes one location at most. -/
theorem content?_alone (hlisted : path ∈ plan.files) (l : Location) :
    (plan.alone disk path).2.content? l = disk.content? l ∨
      ∃ text, plan.Writes disk path l text ∧
        (plan.alone disk path).2.content? l = some (.text text) := by
  rw [alone_snd]
  cases heffect : plan.effect? disk path with
  | none => exact .inl rfl
  | some w =>
      obtain ⟨loc, text⟩ := w
      simp only [Disk.content?_put]
      by_cases hl : l = loc
      · rw [if_pos hl, hl]
        exact .inr ⟨text, (effect?_eq_some_iff hlisted).mp heffect, rfl⟩
      · rw [if_neg hl]
        exact .inl rfl

/-- Where a file is written, it holds the new text. -/
theorem Writes.content?_alone (h : plan.Writes disk path loc text) :
    (plan.alone disk path).2.content? loc = some (.text text) := by
  rw [alone_snd, (effect?_eq_some_iff h.listed).mpr h]
  simp [Disk.content?_put]

/-- A file whose handling fails is not written. -/
theorem alone_of_isFailure (h : (plan.alone disk path).1.status.isFailure = true) :
    (plan.alone disk path).2 = disk := by
  rw [alone_snd]
  cases heffect : plan.effect? disk path with
  | none => rfl
  | some w =>
      have hsome : (plan.effect? disk path).isSome = true := by
        rw [heffect]
        rfl
      obtain ⟨hwrite, hstatus⟩ := status_deliver hsome
      obtain ⟨⟨place, text⟩, hw⟩ := Option.isSome_iff_exists.mp hwrite
      obtain ⟨-, changed, hdone, -⟩ := write?_eq_some hw
      have hreport : (plan.alone disk path).1.status = Verdict.status plan.mode _ := hstatus
      rw [hreport, hdone] at h
      unfold Verdict.status at h
      split at h
      · contradiction
      · cases h
      · split at h <;> cases h

end Plan

end Recompose
