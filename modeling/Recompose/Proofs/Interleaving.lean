import Mathlib.Algebra.GroupWithZero.Nat
import Mathlib.Data.List.Basic
import Mathlib.Logic.Relation
import Recompose.Proofs.FileEffects
import Recompose.Proofs.PluginFaults

/-!
# Files handled at the same time

A run handles its files one after the other, but nothing depends on that. Here
each file is read in one step and delivered in another, and the steps of all files
come in any order. At each moment of such a run every file is as it was or as it is
meant to be at the end, and what is reported about a file is what is reported when
the file is handled alone. So all orders come to the same end, which is that of the
run one after the other.

With an output path there is one file only. Otherwise a file is written to where it
was read, so the handling of one file does not touch another as long as no two
paths lead to the same place.
-/

namespace Recompose

/-! ## Steps -/

/-- How far the handling of a file has come. -/
inductive Stage where
  | waiting
  | fetched (content : Except DiskFault String)
  | reported (report : Report)

namespace Stage

def report? : Stage → Option Report
  | reported report => some report
  | _ => none

/-- How many steps are left to take. -/
def stepsLeft : Stage → Nat
  | waiting => 2
  | fetched _ => 1
  | reported _ => 0

end Stage

/-- A moment of a run: the disk, and each file with its stage. -/
structure Moment where
  disk : Disk
  tasks : List (Path × Stage)

namespace Moment

def reports (m : Moment) : List Report := m.tasks.filterMap (·.2.report?)

def IsDone (m : Moment) : Prop := ∀ t ∈ m.tasks, ∃ report, t.2 = .reported report

def stepsLeft (m : Moment) : Nat := (m.tasks.map (·.2.stepsLeft)).sum

end Moment

namespace Plan

/-- Some file is read, or what came of reading it is delivered. -/
inductive Step (plan : Plan) : Moment → Moment → Prop where
  | fetch {disk : Disk} {front back : List (Path × Stage)} {path : Path} :
      plan.Step ⟨disk, front ++ (path, .waiting) :: back⟩
        ⟨disk, front ++ (path, .fetched (disk.read path)) :: back⟩
  | deliver {disk disk' : Disk} {front back : List (Path × Stage)} {path : Path}
      {content : Except DiskFault String} {report : Report}
      (h : Recompose.deliver plan.mode disk path (judge plan.options content) = (report, disk')) :
      plan.Step ⟨disk, front ++ (path, .fetched content) :: back⟩
        ⟨disk', front ++ (path, .reported report) :: back⟩

/-- Any number of steps, in any order of the files. -/
abbrev Reaches (plan : Plan) : Moment → Moment → Prop := Relation.ReflTransGen plan.Step

/-- Before the first step. -/
def start (plan : Plan) (disk : Disk) : Moment := ⟨disk, plan.files.map (·, .waiting)⟩

variable {plan : Plan} {m m' : Moment}

theorem Step.stepsLeft_lt (h : plan.Step m m') : m'.stepsLeft < m.stepsLeft := by
  cases h <;> simp [Moment.stepsLeft, Stage.stepsLeft]

/-- A run stops only when all files are reported. -/
theorem exists_step (h : ¬ m.IsDone) : ∃ m', plan.Step m m' := by
  obtain ⟨disk, tasks⟩ := m
  simp only [Moment.IsDone, not_forall, not_exists] at h
  obtain ⟨⟨path, stage⟩, hmem, hstage⟩ := h
  obtain ⟨front, back, rfl⟩ := List.append_of_mem hmem
  cases stage with
  | waiting => exact ⟨_, .fetch⟩
  | fetched content => exact ⟨_, .deliver rfl⟩
  | reported report => exact absurd rfl (hstage report)

variable {plan : Plan} {disk : Disk} {path : Path}

/-! ## In the middle of a run -/

/-- What is known of a file at a stage: reading gave what the file held before the
run, and the report is that of the file alone. -/
def IsTrue (plan : Plan) (disk : Disk) (path : Path) : Stage → Prop
  | .waiting => True
  | .fetched content => content = disk.read path
  | .reported report => report = (plan.alone disk path).1

/-- The disk that a file has seen at a stage, were there no other files. -/
def diskAt (plan : Plan) (disk : Disk) (path : Path) : Stage → Disk
  | .reported _ => (plan.alone disk path).2
  | _ => disk

/-- A moment of a run that writes files in their own place. -/
structure Midway (plan : Plan) (disk : Disk) (m : Moment) : Prop where
  alike : disk.Alike m.disk
  paths : m.tasks.map (·.1) = plan.files
  isTrue : ∀ t ∈ m.tasks, plan.IsTrue disk t.1 t.2
  content : ∀ t ∈ m.tasks, ∀ loc, disk.locate t.1 = .ok loc →
    m.disk.content? loc = (plan.diskAt disk t.1 t.2).content? loc
  rest : ∀ loc, (∀ t ∈ m.tasks, disk.locate t.1 ≠ .ok loc) →
    m.disk.content? loc = disk.content? loc

theorem midway_start (plan : Plan) (disk : Disk) : plan.Midway disk (plan.start disk) where
  alike := .refl disk
  paths := by
    rw [start, List.map_map]
    exact List.map_id plan.files
  isTrue := by
    intro t ht
    obtain ⟨path, -, rfl⟩ := List.mem_map.mp ht
    trivial
  content := by
    intro t ht loc hloc
    obtain ⟨path, -, rfl⟩ := List.mem_map.mp ht
    rfl
  rest _ _ := rfl

section

variable {front back : List (Path × Stage)} {stage stage' : Stage} {disk' disk'' : Disk}

/-- One task goes on to its next stage. The others stay where they are, and hold
what they held. -/
theorem Midway.advance (h : plan.Midway disk ⟨disk', front ++ (path, stage) :: back⟩)
    (halike : disk.Alike disk'') (htrue : plan.IsTrue disk path stage')
    (hthis : ∀ loc, disk.locate path = .ok loc →
      disk''.content? loc = (plan.diskAt disk path stage').content? loc)
    (hothers : ∀ loc, disk.locate path ≠ .ok loc → disk''.content? loc = disk'.content? loc)
    (hapart : ∀ t ∈ front ++ back, disk.Apart path t.1) :
    plan.Midway disk ⟨disk'', front ++ (path, stage') :: back⟩ := by
  have hmem : ∀ {t : Path × Stage} {s : Stage}, t ∈ front ++ (path, s) :: back ↔
      t = (path, s) ∨ t ∈ front ++ back := by
    intro t s
    simp only [List.mem_append, List.mem_cons]
    exact or_left_comm
  refine ⟨halike, ?_, ?_, ?_, ?_⟩
  · rw [← h.paths]
    simp
  · intro t ht
    rcases hmem.mp ht with rfl | ht
    · exact htrue
    · exact h.isTrue t (hmem.mpr (.inr ht))
  · intro t ht loc hloc
    rcases hmem.mp ht with rfl | ht
    · exact hthis loc hloc
    · rw [hothers loc fun hpath => hapart t ht loc hpath hloc]
      exact h.content t (hmem.mpr (.inr ht)) loc hloc
  · intro loc hloc
    rw [hothers loc (hloc (path, stage') (hmem.mpr (.inl rfl)))]
    refine h.rest loc fun t ht => ?_
    rcases hmem.mp ht with rfl | ht
    · exact hloc (path, stage') (hmem.mpr (.inl rfl))
    · exact hloc t (hmem.mpr (.inr ht))

end

/-- Paths that lead to different places, seen from one of them. -/
theorem apart_of_pairwise {front back : List (Path × Stage)} {task : Path × Stage}
    (h : ((front ++ task :: back).map (·.1)).Pairwise disk.Apart) :
    ∀ t ∈ front ++ back, disk.Apart task.1 t.1 := by
  rw [List.pairwise_map, List.pairwise_append, List.pairwise_cons] at h
  obtain ⟨-, ⟨hback, -⟩, hfront⟩ := h
  intro t ht
  rcases List.mem_append.mp ht with ht | ht
  · exact (hfront t ht task (List.mem_cons_self ..)).symm
  · exact hback t ht

/-- Reading a file whose turn has not come gives what it held before the run. -/
theorem Midway.read (h : plan.Midway disk m) {stage : Stage} (ht : (path, stage) ∈ m.tasks)
    (hstage : plan.diskAt disk path stage = disk) : m.disk.read path = disk.read path := by
  refine h.alike.read fun loc hloc => ?_
  rw [h.content _ ht loc hloc, hstage]

section

variable {front back : List (Path × Stage)} {disk' disk'' : Disk} {report : Report}
  {content : Except DiskFault String}

theorem Midway.fetch (h : plan.Midway disk ⟨disk', front ++ (path, .waiting) :: back⟩)
    (hdistinct : plan.files.Pairwise disk.Apart) :
    plan.Midway disk ⟨disk', front ++ (path, .fetched (disk'.read path)) :: back⟩ := by
  have hmem : (path, Stage.waiting) ∈ front ++ (path, .waiting) :: back :=
    List.mem_append_right _ (List.mem_cons_self ..)
  have hpaths := h.paths
  refine h.advance h.alike (h.read hmem rfl) ?_ (fun _ _ => rfl) ?_
  · exact fun loc hloc => h.content _ hmem loc hloc
  · exact apart_of_pairwise (hpaths ▸ hdistinct)

/-- What was read before the run is delivered with the effect that it has alone. -/
theorem Midway.deliver (h : plan.Midway disk ⟨disk', front ++ (path, .fetched content) :: back⟩)
    (hdistinct : plan.files.Pairwise disk.Apart) (hplace : ∀ out, plan.mode ≠ .write (some out))
    (hdeliver : Recompose.deliver plan.mode disk' path (judge plan.options content)
      = (report, disk'')) :
    plan.Midway disk ⟨disk'', front ++ (path, .reported report) :: back⟩ := by
  have hmem : (path, Stage.fetched content) ∈ front ++ (path, .fetched content) :: back :=
    List.mem_append_right _ (List.mem_cons_self ..)
  have hpaths := h.paths
  have hapart := apart_of_pairwise (hpaths ▸ hdistinct)
  have hlisted : path ∈ plan.files := by
    rw [← hpaths]
    exact List.mem_map_of_mem hmem
  have hcontent : content = disk.read path := h.isTrue _ hmem
  subst hcontent
  obtain ⟨(heffect : _ = plan.effect? disk path), hsame⟩ :=
    deliver_alike h.alike plan.mode path (judge plan.options (disk.read path))
  have hreport : report = (plan.alone disk path).1 :=
    (congrArg Prod.fst hdeliver).symm.trans hsame
  have hdisk := congrArg Prod.snd hdeliver
  rw [deliver_snd, heffect] at hdisk
  cases he : plan.effect? disk path with
  | none =>
      rw [he] at hdisk
      change disk' = disk'' at hdisk
      subst hdisk
      refine h.advance h.alike hreport (fun loc hloc => ?_) (fun _ _ => rfl) hapart
      show disk'.content? loc = (plan.alone disk path).2.content? loc
      rw [alone_snd, he]
      exact h.content _ hmem loc hloc
  | some w =>
      obtain ⟨loc, text⟩ := w
      rw [he] at hdisk
      change disk'.put loc text = disk'' at hdisk
      subst hdisk
      have hwrites := (effect?_eq_some_iff hlisted).mp he
      obtain ⟨source, hread, -, ⟨-, -, hloc⟩ | ⟨out, hout⟩⟩ := hwrites.transformed
      · have hholds : (disk'.content? loc).isSome = true := by
          rw [h.alike.isSome_content?, Disk.content?_of_read hread hloc]
          rfl
        refine h.advance (h.alike.trans (Disk.alike_put hholds text)) hreport ?_ ?_ hapart
        · intro l hl
          cases hloc.symm.trans hl
          show _ = (plan.alone disk path).2.content? loc
          rw [hwrites.content?_alone, Disk.content?_put, if_pos rfl]
        · intro l hl
          rw [Disk.content?_put, if_neg]
          rintro rfl
          exact hl hloc
      · exact absurd hout (hplace out)

end

/-- Every moment of a run that writes files in their own place. -/
theorem midway_of_reaches (hdistinct : plan.files.Pairwise disk.Apart)
    (hplace : ∀ out, plan.mode ≠ .write (some out)) {m : Moment}
    (h : plan.Reaches (plan.start disk) m) : plan.Midway disk m := by
  induction h with
  | refl => exact midway_start plan disk
  | tail _ hstep ih =>
      cases hstep with
      | fetch => exact ih.fetch hdistinct
      | deliver hdeliver => exact ih.deliver hdistinct hplace hdeliver

/-! ## One file -/

/-- The moments of a run with one file. -/
theorem reaches_single (hfiles : plan.files = [path]) {m : Moment}
    (h : plan.Reaches (plan.start disk) m) :
    ∃ stage, m = ⟨plan.diskAt disk path stage, [(path, stage)]⟩ ∧ plan.IsTrue disk path stage := by
  induction h with
  | refl => exact ⟨.waiting, by rw [start, hfiles]; rfl, trivial⟩
  | tail _ hstep ih =>
      obtain ⟨stage, rfl, htrue⟩ := ih
      generalize htasks : [(path, stage)] = tasks at hstep
      cases hstep with
      | @fetch _ front back path' =>
          obtain ⟨rfl, ⟨rfl, rfl⟩, rfl⟩ :
              front = [] ∧ (path' = path ∧ Stage.waiting = stage) ∧ back = [] := by
            simpa [List.singleton_eq_append_iff] using htasks
          exact ⟨.fetched (disk.read path'), rfl, rfl⟩
      | @deliver _ disk' front back path' content report hdeliver =>
          obtain ⟨rfl, ⟨rfl, rfl⟩, rfl⟩ :
              front = [] ∧ (path' = path ∧ Stage.fetched content = stage) ∧ back = [] := by
            simpa [List.singleton_eq_append_iff] using htasks
          have hcontent : content = disk.read path' := htrue
          subst hcontent
          have halone : plan.alone disk path' = (report, disk') := hdeliver
          refine ⟨.reported report, ?_, ?_⟩
          · rw [diskAt, halone, List.nil_append]
          · rw [IsTrue, halone]

/-! ## One after the other -/

/-- Handling files one after the other is a run. -/
theorem reaches_handleFiles (plan : Plan) (paths : List Path) (front : List (Path × Stage))
    (disk : Disk) :
    ∃ tasks, plan.Reaches ⟨disk, front ++ paths.map (·, .waiting)⟩
        ⟨(handleFiles plan.options plan.mode disk paths).2, front ++ tasks⟩ ∧
      tasks.map (·.2) = (handleFiles plan.options plan.mode disk paths).1.map .reported := by
  induction paths generalizing front disk with
  | nil => exact ⟨[], .refl, rfl⟩
  | cons path paths ih =>
      let done := plan.alone disk path
      obtain ⟨tasks, hrest, htasks⟩ := ih (front ++ [(path, .reported done.1)]) done.2
      rw [List.append_assoc, List.append_assoc] at hrest
      refine ⟨(path, .reported done.1) :: tasks, ?_, ?_⟩
      · exact .head .fetch (.head (.deliver rfl) hrest)
      · show Stage.reported done.1 :: tasks.map (·.2) = _
        rw [htasks]
        rfl

/-- The run that handles one file after the other, and where it ends. -/
theorem exists_end (plan : Plan) (disk : Disk) :
    ∃ m, plan.Reaches (plan.start disk) m ∧ m.IsDone ∧
      m.disk = (handleFiles plan.options plan.mode disk plan.files).2 ∧
      m.reports = (handleFiles plan.options plan.mode disk plan.files).1 := by
  obtain ⟨tasks, hrun, htasks⟩ := plan.reaches_handleFiles plan.files [] disk
  rw [List.nil_append, List.nil_append] at hrun
  refine ⟨_, hrun, ?_, rfl, ?_⟩
  · intro t ht
    have hstage : t.2 ∈ tasks.map (·.2) := List.mem_map_of_mem ht
    rw [htasks] at hstage
    obtain ⟨report, -, heq⟩ := List.mem_map.mp hstage
    exact ⟨report, heq.symm⟩
  · have hreports := congrArg (List.filterMap Stage.report?) htasks
    rw [List.filterMap_map, List.filterMap_map] at hreports
    exact hreports.trans List.filterMap_some

/-! ## At each moment -/

/-- What holds at each moment of a run, in terms of the disk before it. -/
structure Keeps (plan : Plan) (disk : Disk) (m : Moment) : Prop where
  paths : m.tasks.map (·.1) = plan.files
  /-- Where files are only looked at, nothing is written. -/
  unwritten : (∀ out, plan.mode ≠ .write out) → m.disk = disk
  /-- A file is as it was, or it holds what is written to it. -/
  content : ∀ loc, m.disk.content? loc = disk.content? loc ∨
    ∃ path text, plan.Writes disk path loc text ∧ m.disk.content? loc = some (.text text)
  /-- No other file matters for what is reported about one. -/
  reported : ∀ path report, (path, Stage.reported report) ∈ m.tasks →
    report = (handleFile plan.options plan.mode disk path).1
  /-- A text is written by the time that its file is reported. -/
  written : ∀ path report, (path, Stage.reported report) ∈ m.tasks →
    ∀ loc text, plan.Writes disk path loc text → m.disk.content? loc = some (.text text)
  /-- A file that fails keeps its content. -/
  failed : ∀ path report, (path, Stage.reported report) ∈ m.tasks →
    report.status.isFailure = true →
    ∀ loc, disk.locate path = .ok loc → m.disk.content? loc = disk.content? loc

theorem disk_eq_of_reaches (hmode : ∀ out, plan.mode ≠ .write out) {m m' : Moment}
    (h : plan.Reaches m m') : m'.disk = m.disk := by
  induction h with
  | refl => rfl
  | tail _ hstep ih =>
      cases hstep with
      | fetch => exact ih
      | @deliver disk' disk'' _ _ path content report hdeliver =>
          have hwrite : (judge plan.options content).write? path plan.mode = none := by
            cases hmode' : plan.mode with
            | write out => exact absurd hmode' (hmode out)
            | print | check => rfl
          have hsnd := congrArg Prod.snd hdeliver
          simp only [Recompose.deliver, hwrite] at hsnd
          rw [← ih, ← hsnd]

theorem Midway.keeps {m : Moment} (h : plan.Midway disk m)
    (hplace : ∀ out, plan.mode ≠ .write (some out))
    (hunwritten : (∀ out, plan.mode ≠ .write out) → m.disk = disk) : plan.Keeps disk m where
  paths := h.paths
  unwritten := hunwritten
  content := by
    intro loc
    by_cases hloc : ∃ t ∈ m.tasks, disk.locate t.1 = .ok loc
    · obtain ⟨⟨path, stage⟩, ht, hpath⟩ := hloc
      have hlisted : path ∈ plan.files := by
        rw [← h.paths]
        exact List.mem_map_of_mem ht
      rw [h.content _ ht loc hpath]
      cases stage with
      | waiting | fetched _ => exact .inl rfl
      | reported report => exact (content?_alone hlisted loc).imp id fun ⟨text, hw⟩ => ⟨path, text, hw⟩
    · exact .inl (h.rest loc fun t ht hpath => hloc ⟨t, ht, hpath⟩)
  reported path report ht := h.isTrue _ ht
  written := by
    intro path report ht loc text hwrites
    obtain ⟨source, -, -, ⟨-, -, hloc⟩ | ⟨out, hout⟩⟩ := hwrites.transformed
    · rw [h.content _ ht loc hloc]
      exact hwrites.content?_alone
    · exact absurd hout (hplace out)
  failed := by
    intro path report ht hfailure loc hloc
    have hreport : report = (plan.alone disk path).1 := h.isTrue _ ht
    rw [hreport] at hfailure
    rw [h.content _ ht loc hloc]
    show (plan.alone disk path).2.content? loc = _
    rw [alone_of_isFailure hfailure]

theorem keeps_single (hfiles : plan.files = [path]) {stage : Stage}
    (htrue : plan.IsTrue disk path stage)
    (hunwritten : (∀ out, plan.mode ≠ .write out) → plan.diskAt disk path stage = disk) :
    plan.Keeps disk ⟨plan.diskAt disk path stage, [(path, stage)]⟩ where
  paths := hfiles.symm
  unwritten := hunwritten
  content := by
    intro loc
    cases stage with
    | waiting | fetched _ => exact .inl rfl
    | reported report =>
        have hlisted : path ∈ plan.files := by simp [hfiles]
        exact (content?_alone hlisted loc).imp id fun ⟨text, hw⟩ => ⟨path, text, hw⟩
  reported := by
    intro path' report ht
    cases List.mem_singleton.mp ht
    exact htrue
  written := by
    intro path' report ht loc text hwrites
    cases List.mem_singleton.mp ht
    exact hwrites.content?_alone
  failed := by
    intro path' report ht hfailure loc hloc
    obtain ⟨rfl, rfl⟩ := Prod.mk.inj (List.mem_singleton.mp ht)
    have hreport : report = (plan.alone disk path').1 := htrue
    rw [hreport] at hfailure
    show (plan.alone disk path').2.content? loc = _
    rw [alone_of_isFailure hfailure]

/-- Files may be written elsewhere only if there is but one of them. -/
def IsSingle (plan : Plan) : Prop :=
  ∀ out, plan.mode = .write (some out) → ∃ path, plan.files = [path]

theorem keeps_of_reaches (hsingle : plan.IsSingle) (hdistinct : plan.files.Pairwise disk.Apart)
    {m : Moment} (h : plan.Reaches (plan.start disk) m) : plan.Keeps disk m := by
  have hunwritten : (∀ out, plan.mode ≠ .write out) → m.disk = disk :=
    fun hmode => disk_eq_of_reaches hmode h
  by_cases hplace : ∃ out, plan.mode = .write (some out)
  · obtain ⟨out, hout⟩ := hplace
    obtain ⟨path, hfiles⟩ := hsingle out hout
    obtain ⟨stage, rfl, htrue⟩ := reaches_single hfiles h
    exact keeps_single hfiles htrue hunwritten
  · rw [not_exists] at hplace
    exact (midway_of_reaches hdistinct hplace h).keeps hplace hunwritten

/-! ## At the end -/

/-- At the end, the reports are those of the files handled alone. -/
theorem Keeps.reports {m : Moment} (h : plan.Keeps disk m) (hdone : m.IsDone) :
    m.reports = plan.files.map fun path => (handleFile plan.options plan.mode disk path).1 := by
  rw [← h.paths, List.map_map, Moment.reports, ← List.filterMap_eq_map]
  refine List.filterMap_congr fun t ht => ?_
  obtain ⟨report, hstage⟩ := hdone t ht
  have hmem : (t.1, Stage.reported report) ∈ m.tasks := hstage ▸ ht
  rw [hstage, Stage.report?, h.reported t.1 report hmem]
  rfl

/-- Whatever the order of the steps, the end is the same. -/
theorem same_of_isDone (hsingle : plan.IsSingle) (hdistinct : plan.files.Pairwise disk.Apart)
    {m m' : Moment} (h : plan.Reaches (plan.start disk) m) (h' : plan.Reaches (plan.start disk) m')
    (hdone : m.IsDone) (hdone' : m'.IsDone) : m.disk.Same m'.disk := by
  by_cases hplace : ∃ out, plan.mode = .write (some out)
  · obtain ⟨out, hout⟩ := hplace
    obtain ⟨path, hfiles⟩ := hsingle out hout
    obtain ⟨stage, rfl, htrue⟩ := reaches_single hfiles h
    obtain ⟨stage', rfl, htrue'⟩ := reaches_single hfiles h'
    obtain ⟨report, rfl⟩ := hdone _ (List.mem_singleton_self _)
    obtain ⟨report', rfl⟩ := hdone' _ (List.mem_singleton_self _)
    exact ⟨.refl _, fun _ => rfl⟩
  · rw [not_exists] at hplace
    have hmid := midway_of_reaches hdistinct hplace h
    have hmid' := midway_of_reaches hdistinct hplace h'
    refine ⟨hmid.alike.symm.trans hmid'.alike, fun loc => ?_⟩
    have hat : ∀ {m : Moment}, plan.Midway disk m → m.IsDone → ∀ path ∈ plan.files,
        disk.locate path = .ok loc → m.disk.content? loc = (plan.alone disk path).2.content? loc := by
      intro m hm hdone path hpath hloc
      rw [← hm.paths] at hpath
      obtain ⟨⟨_, stage⟩, ht, rfl⟩ := List.mem_map.mp hpath
      obtain ⟨report, rfl⟩ := hdone _ ht
      exact hm.content _ ht loc hloc
    have hnot : ∀ {m : Moment}, plan.Midway disk m → (∀ path ∈ plan.files, disk.locate path ≠ .ok loc) →
        m.disk.content? loc = disk.content? loc := by
      intro m hm hloc
      refine hm.rest loc fun t ht => hloc t.1 ?_
      rw [← hm.paths]
      exact List.mem_map_of_mem ht
    by_cases hloc : ∃ path ∈ plan.files, disk.locate path = .ok loc
    · obtain ⟨path, hpath, hloc⟩ := hloc
      rw [hat hmid hdone path hpath hloc, hat hmid' hdone' path hpath hloc]
    · have hloc : ∀ path ∈ plan.files, disk.locate path ≠ .ok loc :=
        fun path hpath heq => hloc ⟨path, hpath, heq⟩
      rw [hnot hmid hloc, hnot hmid' hloc]

end Plan

/-! ## Runs of a command line -/

section

variable {disk : Disk} {cwd : Path} {a : Arguments} {plan : Plan}

theorem makePlan_eq_ok (h : makePlan disk cwd a = .ok plan) :
    plan.mode = Mode.ofArguments cwd a ∧ (a.out.isSome = true → plan.files.length = 1) := by
  obtain ⟨config, -, h⟩ := exists_of_bind_eq_ok h
  obtain ⟨globs, -, h⟩ := exists_of_bind_eq_ok h
  obtain ⟨files, -, h⟩ := exists_of_bind_eq_ok h
  dsimp only at h
  split at h
  · cases h
  · rename_i hout
    cases h
    refine ⟨rfl, fun hsome => ?_⟩
    simp only [hsome, Bool.true_and, Bool.or_eq_true, decide_eq_true_eq, not_or, not_not] at hout
    exact hout.1

/-- A plan with an output path has one file. -/
theorem isSingle_of_makePlan (h : makePlan disk cwd a = .ok plan) : plan.IsSingle := by
  obtain ⟨hmode, hfiles⟩ := makePlan_eq_ok h
  intro out hout
  rw [hmode] at hout
  unfold Mode.ofArguments at hout
  split at hout
  · cases hout
  · split at hout
    · cases hout
    · have hsome : a.out.isSome = true := by
        rw [← Option.isSome_map, Mode.write.inj hout]
        rfl
      exact List.length_eq_one_iff.mp (hfiles hsome)

/-- The plan of arguments without an output path. -/
theorem makePlan_of_no_out {config : Config} {globs : List Glob} {files : List Path}
    (hconfig : Config.load disk cwd a.config = .ok config) (hglobs : readGlobs a.ignore = .ok globs)
    (hfiles : collectFiles disk cwd globs a.inputs = .ok files) (hout : a.out = none) :
    makePlan disk cwd a
      = .ok ⟨{ settings := config.settings a }, Mode.ofArguments cwd a, files⟩ := by
  rw [makePlan, hconfig, hglobs, mapError_ok]
  show (collectFiles disk cwd globs a.inputs >>= _) = _
  rw [hfiles, hout]
  rfl

/-- A run that is started on files in different places comes to one end, whatever the
order of its steps: the reports and the files that handling them one after the other
leads to. It gets there in any case, and until then no file holds anything but what
it held before or what is written to it at the end. -/
theorem process_interleaved (hplan : makePlan disk cwd a = .ok plan)
    (hdistinct : plan.files.Pairwise disk.Apart) :
    ∃ reports final, process disk cwd a = .ok (reports, final) ∧
      ∀ m, plan.Reaches (plan.start disk) m →
        plan.Keeps disk m ∧
        ((a.check || a.stdout) = true → m.disk = disk) ∧
        (∀ m', plan.Step m m' → m'.stepsLeft < m.stepsLeft) ∧
        (¬ m.IsDone → ∃ m', plan.Step m m') ∧
        (m.IsDone → m.reports.map (·.shownFrom cwd) = reports ∧ m.disk.Same final) := by
  have hsingle := isSingle_of_makePlan hplan
  obtain ⟨inOrder, hrun, hinOrder, hfinal, hreports⟩ := plan.exists_end disk
  refine ⟨inOrder.reports.map (·.shownFrom cwd), inOrder.disk, ?_, fun m hm => ?_⟩
  · rw [process, hplan, hfinal, hreports]
    rfl
  have hkeeps := Plan.keeps_of_reaches hsingle hdistinct hm
  refine ⟨hkeeps, fun hlook => ?_, fun _ => Plan.Step.stepsLeft_lt, Plan.exists_step, ?_⟩
  · refine hkeeps.unwritten fun out hout => ?_
    rw [(makePlan_eq_ok hplan).1, Mode.ofArguments] at hout
    rcases Bool.or_eq_true_iff.mp hlook with hlook | hlook
    · rw [if_pos hlook] at hout
      split at hout <;> cases hout
    · rw [if_pos hlook] at hout
      cases hout
  · intro hdone
    have hends := (Plan.keeps_of_reaches hsingle hdistinct hrun).reports hinOrder
    refine ⟨?_, Plan.same_of_isDone hsingle hdistinct hm hrun hdone hinOrder⟩
    rw [hkeeps.reports hdone, hends]

/-- A component that is rewritten beside one that fails, in the working directory. -/
theorem process_interleaved_two :
    let disk : Disk :=
      { files := [
          (["p", "a.vue"],
            .text ("<script>\nexport default \x7b methods: \x7b go() \x7b\x7d \x7d \x7d\n" ++
              "</script>\n")),
          (["p", "b.vue"], .text "<script>\nexport default 42\n</script>\n")] }
    let cwd : Path := ⟨["", "p"]⟩
    let a : Arguments := { inputs := [⟨["."]⟩] }
    ∃ plan, makePlan disk cwd a = .ok plan ∧
      plan.files.map (plan.effect? disk)
        = [some (["p", "a.vue"], "<script setup>\nfunction go() \x7b\x7d\n</script>\n"), none] ∧
      plan.files.Pairwise disk.Apart ∧
      ∃ reports final, process disk cwd a = .ok (reports, final) ∧
        ∀ m, plan.Reaches (plan.start disk) m →
          plan.Keeps disk m ∧
          ((a.check || a.stdout) = true → m.disk = disk) ∧
          (∀ m', plan.Step m m' → m'.stepsLeft < m.stepsLeft) ∧
          (¬ m.IsDone → ∃ m', plan.Step m m') ∧
          (m.IsDone → m.reports.map (·.shownFrom cwd) = reports ∧ m.disk.Same final) := by
  intro disk cwd a
  have hconfig : Config.load disk cwd a.config = .ok {} := by decide +kernel
  have hinput : filesOfInput disk cwd [] ⟨["."]⟩
      = .ok [⟨["", "p", ".", "a.vue"]⟩, ⟨["", "p", ".", "b.vue"]⟩] := by decide +kernel
  have hsorted : Path.sorted [⟨["", "p", ".", "a.vue"]⟩, ⟨["", "p", ".", "b.vue"]⟩]
      = [⟨["", "p", ".", "a.vue"]⟩, ⟨["", "p", ".", "b.vue"]⟩] := by
    rw [Path.sorted, List.mergeSort_of_pairwise (by decide +kernel), Path.dedup,
      if_neg (by decide +kernel), Path.dedup]
  have hfiles : collectFiles disk cwd [] a.inputs
      = .ok [⟨["", "p", ".", "a.vue"]⟩, ⟨["", "p", ".", "b.vue"]⟩] := by
    rw [collectFiles, List.mapM_cons, hinput]
    exact congrArg Except.ok hsorted
  have hplan := makePlan_of_no_out hconfig rfl hfiles rfl
  have ha : disk.locate ⟨["", "p", ".", "a.vue"]⟩ = .ok ["p", "a.vue"] := by decide +kernel
  have hb : disk.locate ⟨["", "p", ".", "b.vue"]⟩ = .ok ["p", "b.vue"] := by decide +kernel
  have hdistinct : List.Pairwise disk.Apart
      [⟨["", "p", ".", "a.vue"]⟩, ⟨["", "p", ".", "b.vue"]⟩] := by
    refine List.pairwise_pair.mpr fun loc hloc hloc' => ?_
    rw [← Except.ok.inj (ha.symm.trans hloc)] at hloc'
    exact absurd (hb.symm.trans hloc') (by decide)
  exact ⟨_, hplan, by decide +kernel, hdistinct, process_interleaved hplan hdistinct⟩

end

end Recompose
