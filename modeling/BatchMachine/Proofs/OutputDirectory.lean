import BatchMachine.Proofs.Activation
import BatchMachine.Proofs.Finality
import BatchMachine.Proofs.IdleProcessor
import BatchMachine.Proofs.SegmentOrder

/-!
# The output directory

A file is created when a segment is loaded, and at no other time but one: when a job whose text is
not healthy any more is about to load another segment, its output file is created before the input
device refuses the text. Then the job is over and the file stays behind, empty. So what the output
directory holds can be told from the numbers of segments that have been loaded, and from whether
this has happened.

* `Files.has`: something stands at a path.
* `Machine.HasOutput`: the output file of a segment is there.
* `Machine.Adds`: the output files of the next segments of some jobs appear, and nothing else does.
* `Machine.Wastes`: a segment ends, and the output file of the next one is created in vain.
* `Machine.Sound.adds`: what a tick adds.
* `Machine.LoadFails`: what an attempt to load a segment leaves when it fails.
* `Machine.Conserves`, `Machine.exits_of_failed`: after a start in vain the machine exits, and loads
  nothing before.
* `Machine.output_files`: what the output directory holds along every run.
-/

namespace BatchMachine

open JobText

namespace Files

variable {f g : Files} {loc l : Location} {path : String}

/-- Something stands at `path`. -/
def has (files : Files) (path : String) : Bool :=
  match files.resolve path with
  | .ok loc => (files.entry? loc).isSome
  | .error _ => false

theorem has_of_resolve (h : f.resolve path = .ok loc) : f.has path = (f.entry? loc).isSome := by
  unfold has
  rw [h]

theorem has_congr (halike : f.Alike g)
    (hentry : ∀ loc, f.resolve path = .ok loc → (g.entry? loc).isSome = (f.entry? loc).isSome) :
    g.has path = f.has path := by
  unfold has
  cases hresolve : f.resolve path with
  | ok loc =>
    rw [halike.resolve hresolve]
    exact hentry loc hresolve
  | error e =>
    cases hresolve' : g.resolve path with
    | error e' => rfl
    | ok loc =>
      -- a path that leads somewhere in one of the trees does so in the other
      rw [halike.symm.resolve hresolve'] at hresolve
      simp at hresolve

/-- `append` brings no file and takes none away. -/
theorem has_append (f : Files) (loc : Location) (more path : String) :
    (f.append loc more).has path = f.has path := by
  refine has_congr (alike_append f loc more) fun l _ => ?_
  unfold append
  split
  case h_1 content hentry =>
    have hfree : isFixed loc = false := isFixed_eq_false (f := f) (by simp [hentry])
    rw [entry_put _ hfree]
    split
    · rename_i hl
      rw [hl, hentry]
      rfl
    · rfl
  case h_2 => rfl
  case h_3 => rfl

/-- Something stands at the location `loc` of a file that has been created. -/
theorem isSome_entry_create {files : Files} (hcreate : f.create path = .ok (files, loc)) :
    (files.entry? loc).isSome = true := by
  rcases create_cases hcreate with ⟨hother, rfl⟩ | ⟨hplain, rfl⟩
  · cases hentry : files.entry? loc with
    | none => exact absurd (.inl hentry) hother
    | some entry => rfl
  · have hfree : isFixed loc = false := isFixed_eq_false fun hdirectory =>
      not_plain_directory hdirectory hplain
    rw [entry_put _ hfree, if_pos rfl]
    rfl

/-- A working directory with nothing in it has no files of the name `name`. -/
theorem not_has_empty {name : String} (hstep : name ≠ "..") (hroot : name ≠ Path.rootName)
    (hresolve : ∀ loc, empty.resolve path = .ok loc → loc.getLast? = some name) :
    empty.has path = false := by
  cases hpath : empty.resolve path with
  | error e =>
    unfold has
    rw [hpath]
  | ok loc =>
    obtain ⟨before, rfl⟩ := List.getLast?_eq_some_iff.1 (hresolve loc hpath)
    have hfixed : isFixed (before ++ [name]) = false := by
      cases before <;> simp [isFixed, hstep, hroot]
    rw [has_of_resolve hpath]
    unfold entry?
    rw [hfixed]
    rfl

end Files

namespace Machine

variable {m m₀ m₁ m' : Machine} {i j k : Nat} {p : Progress}

/-! ## Output files that appear -/

/-- The output file of segment `k` of job `j` is there. -/
def HasOutput (m : Machine) (j k : Nat) : Prop :=
  m.hardware.files.has (m.outputFile j k) = true

instance (m : Machine) (j k : Nat) : Decidable (m.HasOutput j k) :=
  inferInstanceAs (Decidable (_ = _))

/-- The output file of segment `s` of job `j` appears when it is created, and no other does. -/
theorem has_create {f files : Files} {loc : Location} {s t : Nat}
    (hcreate : f.create (m.outputFile j s) = .ok (files, loc)) :
    files.has (m.outputFile k t) = true ↔
      f.has (m.outputFile k t) = true ∨ (k = j ∧ t = s) := by
  have halike := Files.alike_create hcreate
  have hresolve : f.resolve (m.outputFile j s) = .ok loc := resolve_of_places ⟨files, hcreate⟩
  by_cases hsame : k = j ∧ t = s
  · obtain ⟨rfl, rfl⟩ := hsame
    rw [Files.has_of_resolve (halike.resolve hresolve), Files.isSome_entry_create hcreate]
    simp
  · rw [Files.has_congr halike fun l hl => ?_, or_iff_left hsame]
    -- the paths of two output files lead to different locations
    rw [Files.entry_create hcreate]
    rintro rfl
    exact hsame (resolve_inj hl hresolve)

/-- `m'` comes from `m` by a change in which the output files of the next segments of the jobs `K`
appear, and no other output file comes or goes. -/
structure Adds (K : Nat → Prop) (m m' : Machine) : Prop where
  config : m'.config = m.config
  hasOutput : ∀ j k, m'.HasOutput j k ↔
    m.HasOutput j k ∨ (K j ∧ k = (m.job j).segments + 1)

section Adds

variable {K K' L : Nat → Prop}

theorem adds_of_has (hconfig : m'.config = m.config)
    (hhas : ∀ path, m'.hardware.files.has path = m.hardware.files.has path)
    (hnone : ∀ j, ¬ K j) : m.Adds K m' := by
  refine ⟨hconfig, fun j k => ?_⟩
  unfold HasOutput
  rw [outputFile_congr hconfig, hhas, or_iff_left fun h => hnone j h.1]

theorem adds_of_files (hconfig : m'.config = m.config)
    (hfiles : m'.hardware.files = m.hardware.files) (hnone : ∀ j, ¬ K j) : m.Adds K m' :=
  adds_of_has hconfig (fun _ => by rw [hfiles]) hnone

theorem adds_of_create (hconfig : m'.config = m.config) {loc : Location}
    (hcreate : m.hardware.files.create (m.outputFile i ((m.job i).segments + 1)) =
      .ok (m'.hardware.files, loc))
    (hK : ∀ j, K j ↔ j = i) : m.Adds K m' := by
  refine ⟨hconfig, fun j k => ?_⟩
  unfold HasOutput
  rw [outputFile_congr hconfig, has_create hcreate, hK]
  refine or_congr_right ⟨?_, ?_⟩
  · rintro ⟨rfl, rfl⟩
    exact ⟨rfl, rfl⟩
  · rintro ⟨rfl, rfl⟩
    exact ⟨rfl, rfl⟩

/-- What the changes from `m` to `m₁` and from there to `m'` add, if `m₁` goes by the same numbers
of segments. -/
theorem Adds.trans (h : m.Adds K m₁) (h' : m₁.Adds K' m')
    (hsegments : ∀ j, K' j → (m₁.job j).segments = (m.job j).segments)
    (hL : ∀ j, L j ↔ K j ∨ K' j) : m.Adds L m' := by
  refine ⟨h'.config.trans h.config, fun j k => ?_⟩
  rw [h'.hasOutput, h.hasOutput, hL, or_assoc, or_and_right]
  refine or_congr_right (or_congr_right (and_congr_right fun hj => ?_))
  rw [hsegments j hj]

end Adds

/-- A segment of job `j` ends, and its text is spoilt, so that the output file of the next segment
is created in vain. -/
def Wastes (m : Machine) (j : Nat) : Prop :=
  (∃ o, m.Closes j o) ∧ m.Spoilt j

/-- The output file of the next segment of job `j` is created on the way from `m` to `m'`, since the
segment is loaded or in vain. -/
def Gains (m m' : Machine) (j : Nat) : Prop :=
  j < m.jobs.size ∧ ((m'.job j).segments = (m.job j).segments + 1 ∨ m.Wastes j)

/-! ## The turn of the processor -/

/-- Where no segment ends and none is loaded, no output file appears. -/
theorem adds_of_open (hconfig : m'.config = m.config)
    (hfiles : m'.hardware.files = m.hardware.files)
    (hsegments : ∀ j, (m'.job j).segments = (m.job j).segments)
    (hopen : ∀ j o, ¬ m.Closes j o) : m.Adds (m.Gains m') m' := by
  refine adds_of_files hconfig hfiles ?_
  rintro j ⟨_, hloaded | ⟨⟨o, hcloses⟩, _⟩⟩
  · rw [hsegments] at hloaded
    omega
  · exact hopen j o hcloses

theorem Signals.adds {line : TrapLine} {culprit? : Option Nat}
    (h : m.Signals line culprit? m') (hopen : ∀ j o, ¬ m.Closes j o) :
    m.Adds (m.Gains m') m' :=
  adds_of_open (congrArg Control.config h.control) h.files h.segments_eq hopen

/-- When a segment of job `i` has been loaded, its output file has appeared. -/
theorem Reloads.adds {o : Outcome} {culprit? : Option Nat} {image : List Instruction}
    {reader : Reader} (h : m.Sound) (hi : i < m.jobs.size) (hcloses : m.Closes i o)
    (hreloads : m.Reloads i o culprit? image reader m₁) (hconfig : m'.config = m₁.config)
    (hfiles : m'.hardware.files = m₁.hardware.files) (hview : ∀ j, m'.view j = m₁.view j) :
    m.Adds (m.Gains m') m' := by
  obtain ⟨loc, hcreate, hentered⟩ := hreloads.entered
  rw [← hfiles] at hcreate
  have hloads : ∀ j, (m'.job j).segments = (m.job j).segments + 1 ↔ j = i := fun j =>
    segments_succ_iff_of_view (fun k hk => (hview k).trans (hreloads.view k hk))
      (by rw [hview, hentered]; rfl)
  refine adds_of_create (hconfig.trans (congrArg Control.config hreloads.control)) hcreate
    fun j => ⟨?_, ?_⟩
  · rintro ⟨_, hloaded | ⟨⟨o', hcloses'⟩, _⟩⟩
    · exact (hloads j).1 hloaded
    · exact hcloses.eq h hcloses'
  · rintro rfl
    exact ⟨hi, .inl ((hloads j).2 rfl)⟩

/-- When the last segment of job `i` has ended, the output file of another one may have been created
in vain, and what happens next may add more. -/
theorem Retires.adds {o : Outcome} {culprit? : Option Nat} (h : m.Sound) (hi : i < m.jobs.size)
    (hcloses : m.Closes i o) (hretires : m.Retires i o culprit? m₁)
    (hnext : m₁.Adds
      (fun j => j < m₁.jobs.size ∧ (m'.job j).segments = (m₁.job j).segments + 1) m') :
    m.Adds (m.Gains m') m' := by
  have hconfig : m₁.config = m.config := congrArg Control.config hretires.control
  have hfirst : m.Adds (fun j => j = i ∧ m.Spoilt i) m₁ := by
    rcases hretires.files with ⟨hspoilt, hsame⟩ | ⟨hspoilt, loc, hcreate⟩
    · exact adds_of_files hconfig hsame fun j hj => hspoilt hj.2
    · exact adds_of_create hconfig hcreate fun j => and_iff_left hspoilt
  refine hfirst.trans hnext (fun j _ => hretires.segments_eq j) fun j => ?_
  -- segments of two jobs do not end in the same turn
  have hwastes : m.Wastes j ↔ j = i ∧ m.Spoilt i := by
    constructor
    · rintro ⟨⟨o', hcloses'⟩, hspoilt⟩
      obtain rfl := hcloses.eq h hcloses'
      exact ⟨rfl, hspoilt⟩
    · rintro ⟨rfl, hspoilt⟩
      exact ⟨⟨o, hcloses⟩, hspoilt⟩
  unfold Gains
  rw [hwastes, hretires.size, hretires.segments_eq]
  constructor
  · rintro ⟨hj, hloaded | hspoilt⟩
    · exact .inr ⟨hj, hloaded⟩
    · exact .inl hspoilt
  · rintro (⟨rfl, hspoilt⟩ | ⟨hj, hloaded⟩)
    · exact ⟨hi, .inr ⟨rfl, hspoilt⟩⟩
    · exact ⟨hj, .inl hloaded⟩

/-- When the processor is handed over, the output file of the job that is booted appears. Those that
are given up leave no file. -/
theorem Hands.adds (h : m.Hands p m') :
    m.Adds (fun j => j < m.jobs.size ∧ (m'.job j).segments = (m.job j).segments + 1) m' := by
  -- what gives up jobs and unloads the processor loads no segment
  have hnone : ∀ {m₁ : Machine}, m.Passes m₁ → (∀ j, m'.view j = m₁.view j) →
      ∀ j, ¬ (j < m.jobs.size ∧ (m'.job j).segments = (m.job j).segments + 1) := by
    rintro m₁ hpass hview j ⟨hj, hloaded⟩
    rw [← view_segments, hview, view_segments, hpass.segments hj] at hloaded
    omega
  cases h with
  | rests hpass _ _ _ hunload =>
    exact adds_of_files (hunload.config.trans hpass.config) (hunload.files.trans hpass.files)
      (hnone hpass hunload.view)
  | exits hpass => exact adds_of_files hpass.config hpass.files (hnone hpass fun _ => rfl)
  | @starts m₁ _ i hpass hi _ _ hstart =>
    rcases hstart with ⟨_, hinstall⟩ | ⟨_, m₂, image, reader, hboots, hinstall⟩
    · exact adds_of_files (hinstall.config.trans hpass.config)
        (hinstall.files.trans hpass.files) (hnone hpass hinstall.view)
    · have hi' : i < m.jobs.size := hpass.size ▸ hi
      have hconfig : m₂.config = m₁.config := congrArg Control.config hboots.control
      obtain ⟨loc, hcreate, hentered⟩ := hboots.entered
      rw [hpass.files, hpass.segments hi', outputFile_congr hpass.config, ← hinstall.files]
        at hcreate
      have hloads : ∀ j, (m'.job j).segments = (m₁.job j).segments + 1 ↔ j = i := fun j =>
        segments_succ_iff_of_view (fun k hk => (hinstall.view k).trans (hboots.view k hk))
          (by rw [hinstall.view, hentered]; rfl)
      refine adds_of_create ((hinstall.config.trans hconfig).trans hpass.config) hcreate
        fun j => ⟨?_, ?_⟩
      · rintro ⟨hj, hloaded⟩
        rw [← hpass.segments hj] at hloaded
        exact (hloads j).1 hloaded
      · rintro rfl
        rw [← hpass.segments hi']
        exact ⟨hi', (hloads j).2 rfl⟩

/-- If `m` stays as it is, no output file appears. -/
theorem adds_refl (m : Machine) :
    m.Adds (fun j => j < m.jobs.size ∧ (m.job j).segments = (m.job j).segments + 1) m :=
  adds_of_files rfl rfl fun j hj => by omega

/-- A request of job `i` leaves the output files alone, and then the processor is handed over. -/
theorem Pauses.adds (hpauses : m.Pauses i m₁) (hfiles : m₁.hardware.files = m.hardware.files)
    (hnext : m₁.Adds
      (fun j => j < m₁.jobs.size ∧ (m'.job j).segments = (m₁.job j).segments + 1) m')
    (hopen : ∀ j o, ¬ m.Closes j o) : m.Adds (m.Gains m') m' := by
  have hfirst : m.Adds (fun _ => False) m₁ := adds_of_files hpauses.config hfiles fun _ => id
  refine hfirst.trans hnext (fun j _ => hpauses.segments_eq j) fun j => ?_
  have hwastes : ¬ m.Wastes j := fun hwastes => hwastes.1.elim fun o => hopen j o
  unfold Gains
  rw [or_iff_left hwastes, hpauses.size, hpauses.segments_eq, false_or]

/-- The end of a transfer of job `i` adds nothing, whether the job gets the processor at once or
not. -/
theorem Collects.adds {side : Side} (h : m.Sound) (hi : i < m.jobs.size)
    (hopen : ∀ j o, ¬ m.Closes j o) (hcollects : m.Collects side i m₁)
    (hnext : (if m₁.idle && (m₁.job i).isRunnable then m₁.resume i 0 else (.running, m₁)) =
      (p, m')) : m.Adds (m.Gains m') m' := by
  have hconfig : m₁.config = m.config := congrArg Control.config hcollects.control
  by_cases hroom : (m₁.idle && (m₁.job i).isRunnable) = true
  -- the processor has waited for this job
  · rw [if_pos hroom] at hnext
    simp only [Bool.and_eq_true, Job.isRunnable, decide_eq_true_eq] at hroom
    obtain ⟨m₂, hresume, hinstalls⟩ := hcollects.resumes h hi hroom.1 hroom.2 0
    rw [hresume] at hnext
    obtain ⟨rfl, rfl⟩ := Prod.mk.inj hnext
    refine adds_of_open (hinstalls.config.trans hconfig)
      (hinstalls.files.trans hcollects.files) (fun j => ?_) hopen
    rw [← view_segments, hinstalls.view, view_segments, hcollects.segments_eq]
  · rw [if_neg hroom] at hnext
    obtain ⟨rfl, rfl⟩ := Prod.mk.inj hnext
    exact adds_of_open hconfig hcollects.files hcollects.segments_eq hopen

/-- A turn from `m` to `m'` adds the output files of the segments that are loaded in it, and the one
that is created in vain, if there is one. -/
theorem Turn.adds (h : m.Sound) (hturn : m.Turn p m') : m.Adds (m.Gains m') m' := by
  have hcompletion : ∀ {side : Side}, m.line.trap? = some side.completion →
      ∀ j o, ¬ m.Closes j o := fun {side} htrap j o =>
    not_closes_of_trap? htrap side.completion_ne_halt side.completion_ne_fatal
  -- a file is created where a segment ends, and where the processor is handed over
  cases hturn with
  | idles hline hidle hsignals =>
    refine hsignals.adds fun j o hcloses => ?_
    rcases hcloses with ⟨hrun, _⟩ | ⟨htrap, _⟩
    · rw [(runs_eq_true_iff.1 hrun).1] at hidle
      exact absurd hidle (by decide)
    · exact absurd hline (TrapLine.not_isIdle htrap)
  | steps hline hidle hend hsteps =>
    exact adds_of_open (congrArg Control.config hsteps.control) hsteps.files hsteps.segments_eq
      fun _ _ => not_closes_of_isIdle hline hend
  | reloads hstops hreloads =>
    have hrun := (h.runs_of_stops hstops).1
    exact hreloads.adds h h.wired.current (.inl ⟨hrun, _, hstops⟩) rfl rfl fun _ => rfl
  | @retires _ status m₁ _ _ hstops hretires hpass =>
    obtain ⟨hrun, hculprit, _⟩ := h.runs_of_stops hstops
    have hpauses := hretires.pauses h h.wired.current hculprit fun _ => rfl
    have hhands := passOn_hands hpauses.vacant hpauses.queued status
    rw [hpass] at hhands
    exact hretires.adds h h.wired.current (.inl ⟨hrun, _, hstops⟩) hhands.adds
  | @failsOver _ _ m₁ _ _ htrap hreloads hnext =>
    have hj := (h.charged_job htrap).1
    have hcloses : m.Closes (m.culprit?.getD m.current) (.fatal m.line.data) :=
      .inr ⟨htrap, rfl, rfl⟩
    by_cases hidle : m.idle = true
    -- the job goes on with its next segment at once
    · obtain ⟨m₂, hresume, hinstalls⟩ := hreloads.resumes h htrap hidle m.line.data
      rw [if_pos hidle, hresume] at hnext
      obtain ⟨rfl, rfl⟩ := Prod.mk.inj hnext
      exact hreloads.adds h hj hcloses hinstalls.config hinstalls.files hinstalls.view
    · rw [if_neg hidle] at hnext
      obtain ⟨rfl, rfl⟩ := Prod.mk.inj hnext
      exact hreloads.adds h hj hcloses rfl rfl fun _ => rfl
  | @failsOut m₁ _ _ htrap hretires hnext =>
    have hj := (h.charged_job htrap).1
    refine hretires.adds h hj (.inr ⟨htrap, rfl, rfl⟩) ?_
    by_cases hroom : (m.runs (m.culprit?.getD m.current) || m.idle) = true
    -- no other job runs, so that the next one is searched for
    · have hpauses := hretires.pauses h hj rfl (current_of_room hroom)
      have hhands := passOn_hands hpauses.vacant hpauses.queued m.line.data
      rw [if_pos hroom] at hnext
      rw [hnext] at hhands
      exact hhands.adds
    · rw [if_neg hroom] at hnext
      obtain ⟨rfl, rfl⟩ := Prod.mk.inj hnext
      exact adds_refl _
  | rejects hmisuses hsignals => exact hsignals.adds fun _ _ => hmisuses.not_closes
  | @asks side _ _ htrap _ hasks =>
    obtain ⟨hpauses, hwaits⟩ := hasks.pauses h htrap
    have hhands := giveWay_hands hpauses.vacant hpauses.queued
      (hpauses.size.symm ▸ h.wired.current) hwaits
    exact hpauses.adds hasks.files hhands.adds fun _ _ =>
      not_closes_of_trap? htrap side.request_ne_halt side.request_ne_fatal
  | ignores htrap _ hsignals => exact hsignals.adds (hcompletion htrap)
  | fails htrap _ _ _ hfails =>
    exact adds_of_open (congrArg Control.config hfails.control) hfails.files hfails.segments_eq
      (hcompletion htrap)
  | collects htrap hi _ _ hcollects hnext =>
    exact hcollects.adds h hi (hcompletion htrap) hnext

/-! ## Ticks -/

theorem Offers.wastes (h : m.Offers m₀) (hj : j < m.jobs.size) : m₀.Wastes j ↔ m.Wastes j := by
  have hsource : m₀.hardware.source? j = m.hardware.source? j := by
    rw [← view_source?, h.view j hj, View.source?_offered, view_source?]
  unfold Wastes
  rw [spoilt_congr (congrArg Control.config h.control) (h.unmoved hj).segments hsource h.files]
  simp only [h.closes]

/-- `tickDevice` brings no output file and takes none away. -/
theorem adds_tickDevice (m : Machine) (dev : Nat) : m.Adds (fun _ => False) (m.tickDevice dev) := by
  cases hdevice : m.hardware.device? dev with
  | none =>
    have hsame : m.tickDevice dev = m := by simp [tickDevice, hdevice]
    rw [hsame]
    exact adds_of_files rfl rfl fun _ => id
  | some d =>
    have hfiles : (m.tickDevice dev).hardware.files =
        (d.tick m.line (m.hardware.sourceOf? d) m.hardware.files).files := by
      rw [hardware_tickDevice, Hardware.tickDevice, hdevice]
      simp only [Hardware.update]
      split <;> rfl
    have hconfig : (m.tickDevice dev).config = m.config := by
      simp only [tickDevice, hdevice]
      rfl
    refine adds_of_has hconfig (fun path => ?_) fun _ => id
    rw [hfiles]
    rcases d.files_tick m.line (m.hardware.sourceOf? d) m.hardware.files with
      hsame | ⟨loc, more, happend⟩
    · rw [hsame]
    · rw [happend, Files.has_append]

theorem adds_tickFirst (m : Machine) (n : Nat) : m.Adds (fun _ => False) (m.tickFirst n) := by
  induction n with
  | zero => exact adds_of_files rfl rfl fun _ => id
  | succ n ih =>
    rw [tickFirst_succ]
    exact ih.trans (adds_tickDevice _ _) (fun _ => False.elim) (by simp)

/-- `tick` adds the output files of the segments that are loaded in it, and the one that is created
in vain, if there is one. -/
theorem Sound.adds (h : m.Sound) (htick : m.tick = (p, m')) : m.Adds (m.Gains m') m' := by
  obtain ⟨m₀, hoffers, hsound₀, hturn⟩ := h.turn
  have hserved := hturn.adds hsound₀
  have hbefore : m.Adds (fun _ => False) m₀ :=
    adds_of_files (congrArg Control.config hoffers.control) hoffers.files fun _ => id
  have hafter : m.served.Adds (fun _ => False) m' := by
    cases p with
    | exited status =>
      rw [eq_of_tick_exited htick]
      exact adds_of_files rfl rfl fun _ => id
    | running =>
      rw [eq_of_tick_running htick]
      exact (adds_tickFirst _ _).trans (adds_of_files rfl rfl fun _ => id) (fun _ => False.elim)
        (by simp)
  -- what is said of the turn is said of the machine before the requests have been offered
  have hturned : m.Adds (m.Gains m') m.served := by
    refine hbefore.trans hserved (fun j hj => (hoffers.unmoved (hoffers.size ▸ hj.1)).segments)
      fun j => ?_
    unfold Gains
    rw [hoffers.size, false_or]
    refine and_congr_right fun hj => ?_
    rw [hoffers.wastes hj, (h.unmoved_of_tick htick j).segments, (hoffers.unmoved hj).segments]
  exact hturned.trans hafter (fun _ => False.elim) (by simp)

/-- A job `j` whose output file is created in vain is over then, and has loaded no further
segment. -/
theorem Sound.of_wastes (h : m.Sound) (hj : j < m.jobs.size) (htick : m.tick = (p, m'))
    (hwastes : m.Wastes j) :
    (m'.job j).life = .finished ∧ (m'.job j).segments = (m.job j).segments := by
  obtain ⟨m₀, hoffers, hsound₀, hmove⟩ := h.move_of_tick
  have hafter := h.unmoved_of_tick htick j
  rw [hafter.life, hafter.segments, ← (hoffers.unmoved hj).segments]
  obtain ⟨⟨o, hcloses⟩, r, image, reader, created, hsource, hnext, hunhealthy, _⟩ :=
    (hoffers.wastes hj).2 hwastes
  show (m.served.view j).job.life = .finished ∧
    (m.served.view j).job.segments = (m₀.view j).job.segments
  -- a job whose segment ends goes on with the next one or is dismissed, and it cannot go on
  cases hmove j hj with
  | shifts hsubject => exact absurd (hcloses.subject? hsound₀) hsubject
  | steps hline _ hend => exact absurd hcloses (not_closes_of_isIdle hline hend)
  | rejects _ hmisuses => exact absurd hcloses hmisuses.not_closes
  | reloads _ hsource' hnext' hhealthy =>
    obtain rfl := Option.some.inj (hsource.symm.trans hsource')
    obtain rfl := (Prod.mk.inj (hnext.symm.trans hnext')).2
    rw [hunhealthy] at hhealthy
    exact absurd hhealthy (by decide)
  | retires _ _ hview =>
    rw [hview]
    exact ⟨rfl, rfl⟩
  | @asks side _ _ htrap =>
    exact absurd hcloses (not_closes_of_trap? htrap side.request_ne_halt side.request_ne_fatal)
  | fails hcompletes | collects hcompletes => exact absurd hcloses hcompletes.not_closes

/-! ## Failed loads -/

/-- `m'` comes from `m` by an attempt to load the next segment of job `j` that has failed. The
processor and what the scheduler knows are as they were, and so are the slots of all jobs, the texts
of the other jobs and the devices other than the job's output device. Unless the text of the job is
spoilt its output device and the files are as they were too. -/
structure LoadFails (j : Nat) (m m' : Machine) : Prop where
  cpu : m'.hardware.cpu = m.hardware.cpu
  control : m'.control = m.control
  job : ∀ i, m'.job i = m.job i
  source : ∀ i, i ≠ j → m'.hardware.source? i = m.hardware.source? i
  device : ∀ dev, dev ≠ outputNumber j → m'.hardware.device? dev = m.hardware.device? dev
  sound : ¬ m.Spoilt j → m'.hardware.files = m.hardware.files ∧
    m'.hardware.device? (outputNumber j) = m.hardware.device? (outputNumber j)
  /-- Else the output file of the segment has been created, and the output device is bound to it. -/
  spoilt : m.Spoilt j → ∃ loc d,
    m.hardware.files.create (m.outputFile j ((m.job j).segments + 1)) =
      .ok (m'.hardware.files, loc) ∧
    m.hardware.device? (outputNumber j) = some d ∧
    m'.hardware.device? (outputNumber j) = some (d.withSink (.ofFile m'.hardware.files loc))

/-- What `loadNext` leaves for job `j` when it fails. -/
theorem Wired.loadFails (w : m.Wired) (hj : j < m.jobs.size) {res : Except LoadError Bool}
    (hload : m.loadNext j = (res, m')) (hres : res ≠ .ok true) : m.LoadFails j m' := by
  have hprepares : m.Prepares j m' :=
    (loadNext_inv hload).elim And.right fun h => absurd h.1 hres
  have hmisses : m.Misses j m' := by
    rcases loadNext_cases w hj with ⟨m₁, _, _, hok, _⟩ | ⟨m₁, res₁, hload₁, _, h, _⟩
    · rw [hload] at hok
      exact absurd (Prod.mk.inj hok).1 hres
    · rw [hload] at hload₁
      exact (Prod.mk.inj hload₁).2 ▸ h
  have w' := hmisses.touches.wired
  have hj' : j < m'.jobs.size := hprepares.size.symm ▸ hj
  constructor
  case cpu => exact hprepares.cpu
  case control => exact hprepares.control
  case job => exact hprepares.job_eq
  case source => exact hprepares.source
  case device =>
    intro dev hdev
    by_cases howner : ownerOf? dev = some j
    -- of the devices of the job only the input device is left
    · obtain ⟨side, hside⟩ := Side.exists_number howner
      cases side with
      | output => exact absurd hside hdev
      | input =>
        rw [show dev = inputNumber j from hside, device?_inputNumber w hj,
          device?_inputNumber w' hj']
        exact congrArg some (hmisses.elim (fun h => h.2.input) Spoils.input)
    · exact hprepares.device w.equipped dev howner
  case sound =>
    intro hspoilt
    have hspares : m.Spares j m' := hmisses.elim And.right fun h => absurd h.spoilt hspoilt
    refine ⟨hspares.files, ?_⟩
    rw [device?_outputNumber w hj, device?_outputNumber w' hj', hspares.output]
  case spoilt =>
    intro hspoilt
    have hspoils : m.Spoils j m' := hmisses.elim (fun h => absurd hspoilt h.1) id
    obtain ⟨loc, hcreate, houtput⟩ := hspoils.created
    refine ⟨loc, _, hcreate, device?_outputNumber w hj, ?_⟩
    rw [device?_outputNumber w' hj', houtput]

/-! ## After a start in vain -/

/-- `m'` comes from `m` by a change in which no file is created, no segment is loaded, and a job
that is over stays so. -/
structure Conserves (m m' : Machine) : Prop where
  control : m'.control = m.control
  files : m'.hardware.files = m.hardware.files
  segments : ∀ k, (m'.job k).segments = (m.job k).segments
  finished : ∀ k, (m.job k).life = .finished → (m'.job k).life = .finished

namespace Conserves

theorem of_jobs (hcontrol : m'.control = m.control) (hfiles : m'.hardware.files = m.hardware.files)
    (hjobs : m'.jobs = m.jobs) : m.Conserves m' := by
  have hjob : ∀ k, m'.job k = m.job k := fun k => by unfold job; rw [hjobs]
  exact ⟨hcontrol, hfiles, fun k => by rw [hjob], fun k hlife => by rw [hjob, hlife]⟩

theorem trans (h : m.Conserves m₁) (h' : m₁.Conserves m') : m.Conserves m' where
  control := h'.control.trans h.control
  files := h'.files.trans h.files
  segments k := (h'.segments k).trans (h.segments k)
  finished k hlife := h'.finished k (h.finished k hlife)

theorem size (h : m.Conserves m') : m'.jobs.size = m.jobs.size :=
  congrArg Control.size h.control

/-- As no file is created between `m` and `m'`, no output file appears. -/
theorem adds (h : m.Conserves m') : m.Adds (fun _ => False) m' :=
  adds_of_files (congrArg Control.config h.control) h.files fun _ => id

end Conserves

theorem Agrees.conserves (h : m.Agrees m') : m.Conserves m' :=
  .of_jobs h.control (by rw [h.hardware]) h.jobs

theorem conserves_modifyJob {f : Job → Job} (hsegments : ∀ job, (f job).segments = job.segments)
    (hlife : ∀ job, job.life = .finished → (f job).life = .finished) :
    m.Conserves (m.modifyJob j f) where
  control := control_modifyJob f
  files := rfl
  segments k := by
    rcases job_modifyJob_or (m := m) (j := j) f k with hjob | hjob
    · rw [hjob, hsegments]
    · rw [hjob]
  finished k hk := by
    rcases job_modifyJob_or (m := m) (j := j) f k with hjob | hjob
    · rw [hjob, hlife _ hk]
    · rw [hjob, hk]

theorem conserves_release (dev : Nat) : m.Conserves (m.release dev) := by
  unfold release Hardware.release
  cases m.hardware.device? dev with
  | none => exact .of_jobs rfl rfl rfl
  | some d => exact .of_jobs rfl rfl rfl

theorem conserves_dismiss (j : Nat) : m.Conserves (m.dismiss j) := by
  have hslot : m.Conserves (m.modifyJob j fun job =>
      { job with life := .finished, pending? := none, target? := none }) :=
    conserves_modifyJob (fun _ => rfl) fun _ _ => rfl
  have hsource : m.Conserves ((m.modifyJob j fun job =>
      { job with life := .finished, pending? := none, target? := none }).setSource j none) :=
    hslot.trans (.of_jobs rfl rfl rfl)
  exact ((hsource.trans (conserves_release (inputNumber j))).trans
    (conserves_release (outputNumber j))).trans (agrees_note _).conserves

/-- No job is left in `m`, and the one that ran last has no text any more. -/
structure Spent (m : Machine) : Prop where
  finished : ∀ k < m.jobs.size, (m.job k).life = .finished
  source : m.hardware.source? m.current = none

/-- If no job is left, `passOn` exits with `status`. -/
theorem passOn_of_finished (h : ∀ k < m.jobs.size, (m.job k).life = .finished) (status : Word) :
    m.passOn status = (.exited status, m.note (.exiting status)) := by
  have hnext : m.nextRunnable? = none := by
    cases hnext : m.nextRunnable? with
    | none => rfl
    | some j =>
      obtain ⟨hj, hlife⟩ := lt_of_nextRunnable? hnext
      rw [h j hj] at hlife
      exact absurd hlife (by decide)
  have hrotate : m.rotate = (false, m) := by
    unfold rotate
    cases m.jobs.size with
    | zero => rfl
    | succ n => simp only [rotateAmong, hnext]
  have hwaiter : m.hasWaiter = false := by
    refine Bool.eq_false_iff.2 fun hwaits => ?_
    obtain ⟨j, hj, hlife⟩ := hasWaiter_iff.1 hwaits
    rw [h j hj] at hlife
    exact absurd hlife (by decide)
  simp only [passOn, hrotate, hwaiter, Bool.false_eq_true, if_false]

/-- If no job is left, `serveSegmentEnd` is the end of the run. -/
theorem Spent.serveSegmentEnd (h : m.Spent) :
    ∃ m', m.serveSegmentEnd = (.exited 0, m') ∧ m.Conserves m' := by
  have hset : m.Conserves ((m.note (.reachedEnd m.current)).setOutcome m.current .completed) :=
    (agrees_note _).conserves.trans (conserves_modifyJob (fun _ => rfl) fun _ => id)
  have hsource : ((m.note (.reachedEnd m.current)).setOutcome m.current
    .completed).hardware.source? m.current = none := h.source
  unfold Machine.serveSegmentEnd retire endSegment
  simp only
  generalize (m.note (.reachedEnd m.current)).setOutcome m.current .completed = m₁
    at hset hsource ⊢
  have hload : m₁.loadNext m.current = (.ok false, m₁) := by simp only [loadNext, hsource]
  rw [hload]
  have hdismiss := hset.trans (conserves_dismiss m.current)
  have hover : ∀ k < (m₁.dismiss m.current).jobs.size,
      ((m₁.dismiss m.current).job k).life = .finished := fun k hk =>
    hdismiss.finished k (h.finished k (hdismiss.size ▸ hk))
  exact ⟨_, passOn_of_finished hover 0, hdismiss.trans (agrees_note _).conserves⟩

/-- A machine `m` that has never loaded a job exits in its next tick if no job is left. -/
theorem Pristine.exits (h : m.Pristine) (hspent : m.Spent) :
    ∃ m', m.tick = (.exited 0, m') ∧ m.Conserves m' := by
  obtain ⟨_, _, m₀, hagrees, hturn⟩ := h.turn
  have hcurrent : m₀.current = m.current := congrArg Control.current hagrees.control
  have hspent₀ : m₀.Spent := by
    refine ⟨fun k hk => ?_, ?_⟩
    · rw [hagrees.job]
      exact hspent.finished k (hagrees.size ▸ hk)
    · rw [hagrees.hardware, hcurrent]
      exact hspent.source
  obtain ⟨m₁, hserve, hconserves⟩ := hspent₀.serveSegmentEnd
  rw [hserve] at hturn
  refine ⟨m₁.closeTick, ?_, (hagrees.conserves.trans hconserves).trans agrees_closeTick.conserves⟩
  rw [tick_eq, served, hturn]

/-! ## Runs -/

section Launch

variable {jobs : List (Job × Option Reader)} {config : Config} {files : Files} {journal : Journal}
  {first : Machine} {past : List Machine} {res : Except StartError Unit}

/-- Before the start no segment of job `j` has been loaded. -/
theorem segments_new
    (hjobs : ∀ entry ∈ jobs, ∃ index origin path?, entry.1 = Job.new index origin path?)
    (hj : j < jobs.length) : ((new jobs config files journal).job j).segments = 0 := by
  obtain ⟨index, origin, path?, hview⟩ := exists_view_new config files journal hjobs hj
  rw [← view_segments, hview]
  rfl

/-- If the output file of job `j` has been created in vain in a run, the job is over. -/
theorem Run.finished_of_wastes (h : first.Sound) (hrun : Run first p past m)
    (hj : j < first.jobs.size) (hwastes : ∃ x ∈ past, x.Wastes j) : (m.job j).life = .finished := by
  induction hrun with
  | start => simp at hwastes
  | @tick past m m' _ hrun htick ih =>
    have hsound := (hrun.sound h).2 rfl
    have hj' : j < m.jobs.size := (hrun.lasts h hj).1 ▸ hj
    obtain ⟨x, hx, hwastes⟩ := hwastes
    rcases List.mem_cons.1 hx with rfl | hmem
    · exact (hsound.of_wastes hj' htick hwastes).1
    · exact ((hsound.lasts htick hj').2 (ih ⟨x, hmem, hwastes⟩)).1

/-- The output file of segment `k` of job `j` is there if the segment has been loaded, or its output
file has been created in vain. -/
theorem Run.hasOutput (hlaunch : Launches jobs config files journal first)
    (hempty : ∀ j k, ¬ (new jobs config files journal).HasOutput j k)
    (hrun : Run first p past m) (j k : Nat) :
    m.HasOutput j k ↔ j < jobs.length ∧ 1 ≤ k ∧ (k ≤ (m.job j).segments ∨
      (k = (m.job j).segments + 1 ∧ ∃ x ∈ past, x.Wastes j)) := by
  induction hrun generalizing k with
  | start =>
    -- the start hands the processor over, and may boot a job
    have hsize : (new jobs config files journal).jobs.size = jobs.length := by simp [new]
    rw [hlaunch.hands.adds.hasOutput, or_iff_right (hempty j k), hsize, and_assoc]
    refine and_congr_right fun hj => ?_
    have hone := (hlaunch.shift hj).segments
    rw [segments_new hlaunch.1 hj] at hone ⊢
    simp only [List.not_mem_nil, false_and, exists_false, and_false, or_false]
    omega
  | @tick past m m' _ hrun htick ih =>
    have hsound := (hrun.sound hlaunch.sound).2 rfl
    have hsize := hrun.size hlaunch
    rw [(hsound.adds htick).hasOutput, ih, Gains, hsize, and_assoc, ← and_or_left]
    refine and_congr_right fun hj => ?_
    have hj' : j < m.jobs.size := hsize ▸ hj
    have hone := hsound.segments_tick htick hj'
    -- a job that has loaded a segment was not over, and one that has wasted a file is
    have hlate : (∃ x ∈ past, x.Wastes j) → (m'.job j).segments = (m.job j).segments :=
      fun hwastes => ((hsound.lasts htick hj').2 (hrun.finished_of_wastes hlaunch.sound
        (hlaunch.size ▸ hj) hwastes)).2.1
    have hnow : m.Wastes j → (m'.job j).segments = (m.job j).segments := fun hwastes =>
      (hsound.of_wastes hj' htick hwastes).2
    simp only [List.mem_cons, exists_eq_or_imp]
    by_cases hloaded : (m'.job j).segments = (m.job j).segments + 1
    -- the job has loaded a segment, so that it has never wasted a file
    · have hpast : ¬ ∃ x ∈ past, x.Wastes j := fun hwastes => by
        have := hlate hwastes
        omega
      have hpresent : ¬ m.Wastes j := fun hwastes => by
        have := hnow hwastes
        omega
      simp only [hloaded, hpast, hpresent, true_and, and_false, or_false]
      omega
    -- it has not, so that only a file in vain can have appeared
    · have hsame := hone.resolve_right hloaded
      have hne : (m.job j).segments ≠ (m.job j).segments + 1 := by omega
      simp only [hsame, hne, false_or]
      constructor
      · rintro (⟨hpos, hle | ⟨hk, hpast⟩⟩ | ⟨hpresent, hk⟩)
        · exact ⟨hpos, .inl hle⟩
        · exact ⟨hpos, .inr ⟨hk, .inr hpast⟩⟩
        · exact ⟨by omega, .inr ⟨hk, .inl hpresent⟩⟩
      · rintro ⟨hpos, hle | ⟨hk, hpresent | hpast⟩⟩
        · exact .inl ⟨hpos, .inl hle⟩
        · exact .inr ⟨hpresent, hk⟩
        · exact .inl ⟨hpos, .inr ⟨hk, hpast⟩⟩

/-- After a start in vain job `j` has no text any more. -/
theorem source?_of_failed
    (hjobs : ∀ entry ∈ jobs, ∃ index origin path?, entry.1 = Job.new index origin path?)
    (hpass : (new jobs config files journal).Passes first)
    (hover : ∀ k < first.jobs.size, (first.job k).life = .finished) (hj : j < jobs.length) :
    first.hardware.source? j = none := by
  have hsize : (new jobs config files journal).jobs.size = jobs.length := by simp [new]
  have hj' : j < (new jobs config files journal).jobs.size := hsize.symm ▸ hj
  rw [← view_source?]
  rcases hpass.view j hj' with hsame | ⟨_, _, hdropped, _⟩
  · obtain ⟨index, origin, path?, hview⟩ := exists_view_new config files journal hjobs hj
    have hlife := hover j (hpass.size.symm ▸ hj')
    rw [← view_life, hsame, hview] at hlife
    exact absurd (show Life.runnable = .finished from hlife) (by decide)
  · rw [hdropped]
    rfl

/-- After a start in vain `first` exits in its first tick, and nothing is loaded in it. -/
theorem exits_of_failed
    (hjobs : ∀ entry ∈ jobs, ∃ index origin path?, entry.1 = Job.new index origin path?)
    (hstart : (new jobs config files journal).start = (res, first))
    (hpass : (new jobs config files journal).Passes first)
    (hover : ∀ k < first.jobs.size, (first.job k).life = .finished) :
    ∃ m', first.tick = (.exited 0, m') ∧ first.Conserves m' := by
  have hnew := pristine_new config files journal hjobs
  have hidle : first.idle = true := (congrArg Control.idle hpass.control).trans hnew.idle
  have hpristine : first.Pristine := by
    have hcases := start_engages_or (new jobs config files journal)
    rw [hstart] at hcases
    rcases hcases with hengages | hquiet
    · have hbusy : first.idle = false := hengages.busy
      rw [hidle] at hbusy
      exact absurd hbusy (by decide)
    · exact hnew.of_keepsQuiet hquiet
  refine hpristine.exits ⟨hover, ?_⟩
  rw [hpristine.current]
  cases jobs with
  | nil =>
    have hnone : (new [] config files journal).start =
        (.error .noJobs, new [] config files journal) := rfl
    obtain ⟨_, rfl⟩ := Prod.mk.inj (hstart.symm.trans hnone)
    rfl
  | cons => exact source?_of_failed hjobs hpass hover (Nat.succ_pos _)

/-- After a start in vain no segment is loaded, so that there are no output files. -/
theorem Run.hasOutput_of_failed
    (hjobs : ∀ entry ∈ jobs, ∃ index origin path?, entry.1 = Job.new index origin path?)
    (hempty : ∀ j k, ¬ (new jobs config files journal).HasOutput j k)
    (hstart : (new jobs config files journal).start = (res, first))
    (hpass : (new jobs config files journal).Passes first)
    (hover : ∀ k < first.jobs.size, (first.job k).life = .finished) (hrun : Run first p past m)
    (j k : Nat) :
    m.HasOutput j k ↔ j < jobs.length ∧ 1 ≤ k ∧ (k ≤ (m.job j).segments ∨
      (k = (m.job j).segments + 1 ∧ ∃ x ∈ past, x.Wastes j)) := by
  obtain ⟨m', hexits, hconserves⟩ := exits_of_failed hjobs hstart hpass hover
  have hfirst : (new jobs config files journal).Adds (fun _ => False) first :=
    adds_of_files hpass.config hpass.files fun _ => id
  have hnone : ¬ first.HasOutput j k := by
    rw [hfirst.hasOutput, or_iff_right (hempty j k)]
    exact fun h => h.1
  have hsegments : j < jobs.length → (first.job j).segments = 0 := fun hj => by
    rw [hpass.segments (by simpa [new] using hj), segments_new hjobs hj]
  have hwastes : j < jobs.length → ¬ first.Wastes j := by
    rintro hj ⟨_, r, _, _, _, hsource, _⟩
    rw [source?_of_failed hjobs hpass hover hj] at hsource
    simp at hsource
  -- a run has at most the one tick that exits
  rcases hrun.of_exits hexits with ⟨rfl, rfl⟩ | ⟨rfl, rfl, _⟩
  · refine iff_of_false hnone ?_
    rintro ⟨hj, hpos, hk | ⟨_, x, hx, _⟩⟩
    · have := hsegments hj
      omega
    · simp at hx
  · rw [hconserves.adds.hasOutput]
    refine iff_of_false (fun h => h.elim hnone And.left) ?_
    rintro ⟨hj, hpos, hk | ⟨_, x, hx, hwasted⟩⟩
    · have := hsegments hj
      rw [hconserves.segments] at hk
      omega
    · obtain rfl := List.mem_singleton.1 hx
      exact hwastes hj hwasted

/-- The output directory holds the output file of every segment that has been loaded, and beside
these at most one for each job: that of the segment after its last one, if that segment could not be
loaded because an earlier read had failed. So it is along every run from `first` to `m`, whatever
the texts of the `jobs` are and whether the start has been successful or not, if no output file was
there at first. When `loadNext` fails it leaves the processor, the scheduler, the jobs and the
devices as they were, and creates no file; but a text that is spoilt is found out only after the
file has been created and the output device bound to it. -/
theorem output_files
    (hjobs : ∀ entry ∈ jobs, ∃ index origin path?, entry.1 = Job.new index origin path?)
    (hempty : ∀ j k, ¬ (new jobs config files journal).HasOutput j k)
    (hstart : (new jobs config files journal).start = (res, first)) (hrun : Run first p past m) :
    (∀ j k, m.HasOutput j k ↔ j < jobs.length ∧ 1 ≤ k ∧ (k ≤ (m.job j).segments ∨
      (k = (m.job j).segments + 1 ∧ ∃ x ∈ past, x.Wastes j))) ∧
    ∀ (x x' : Machine) (j : Nat) (loaded : Except LoadError Bool), x.Wired → j < x.jobs.size →
      x.loadNext j = (loaded, x') → loaded ≠ .ok true → x.LoadFails j x' := by
  refine ⟨fun j k => ?_, fun x x' j loaded w hj hload hfails => w.loadFails hj hload hfails⟩
  rcases start_cases hjobs hstart with ⟨rfl, _⟩ | ⟨_, hpass, hover⟩
  · exact Run.hasOutput ⟨hjobs, hstart⟩ hempty hrun j k
  · exact hrun.hasOutput_of_failed hjobs hempty hstart hpass hover j k

/-! ## An example -/

/-- In an empty working directory there is no output file of a segment `k` of job `j`. -/
theorem not_hasOutput_of_empty (hempty : m.hardware.files = .empty) (j k : Nat) :
    ¬ m.HasOutput j k := by
  have hroot : outputName j k ≠ Path.rootName := by
    intro hname
    have hslash := notMem_outputName j k
    rw [hname] at hslash
    exact hslash (by decide)
  unfold HasOutput
  rw [hempty, Files.not_has_empty (outputName_ne j k).2.2 hroot fun loc => getLast?_outputFile]
  decide

/-- A job whose input is no word, and which has another segment. -/
def spoiltJobs : List (Job × Option Reader) :=
  [(.new 0 "first" none,
    some (.ofText "first" "$JOB first\nf 2 1\n$RUN\nzz\n$JOB second\nf 1 1\n"))]

/-- The machine of `spoiltJobs` after its start, with devices that need one tick. -/
def spoiltFirst : Machine :=
  (new spoiltJobs { Config.standard with deviceDelay := 1 } .empty (.new none)).start.2

/-- The machine before the tick in which the first segment ends. -/
def spoiltLast : Machine :=
  (tickUpTo 4 spoiltFirst).2

theorem launches_spoilt :
    Launches spoiltJobs { Config.standard with deviceDelay := 1 } .empty (.new none)
      spoiltFirst :=
  launches_of_isOk (by decide +kernel) (by decide +kernel)

theorem run_spoilt : ∃ past, spoiltLast.Sound ∧
    Run spoiltFirst spoiltLast.tick.1 (spoiltLast :: past) spoiltLast.tick.2 := by
  obtain ⟨past, hrun, _⟩ := run_of_tickUpTo (m := spoiltFirst) (n := 4) (by decide +kernel)
  exact ⟨past, (hrun.sound launches_spoilt.sound).2 rfl, hrun.tick (Prod.eta _).symm⟩

/-- The output file of the second segment has been created in vain, since there is no other way in
which it could have come about. That of a third segment is not there. The load that has failed has
left the job as it was. -/
theorem output_files_spoilt :
    ¬ spoiltLast.tick.2.HasOutput 0 3 ∧ (spoiltLast.loadNext 0).2.job 0 = spoiltLast.job 0 ∧
      ∃ past, Run spoiltFirst spoiltLast.tick.1 past spoiltLast.tick.2 ∧
        ∃ x ∈ past, x.Wastes 0 := by
  have hstate : (spoiltLast.tick.2.job 0).segments = 1 ∧ spoiltLast.tick.2.HasOutput 0 2 ∧
      (spoiltLast.loadNext 0).1.toOption = none := by decide +kernel
  obtain ⟨hone, hthere, hfails⟩ := hstate
  obtain ⟨past, hsound, hrun⟩ := run_spoilt
  obtain ⟨hjobs, hstart⟩ := launches_spoilt
  obtain ⟨hhas, hload⟩ := output_files hjobs (not_hasOutput_of_empty rfl) hstart hrun
  refine ⟨fun hthird => ?_, ?_, _, hrun, ?_⟩
  · have hbound := ((hhas 0 3).1 hthird).2.2
    omega
  · have hfailed : (spoiltLast.loadNext 0).1 ≠ .ok true := by
      intro hok
      rw [hok] at hfails
      simp [Except.toOption] at hfails
    exact (hload spoiltLast _ 0 _ hsound.wired (by decide) (Prod.eta _).symm hfailed).job 0
  · rcases ((hhas 0 2).1 hthere).2.2 with hle | ⟨_, hwastes⟩
    · omega
    · exact hwastes

/-- The file stays although only one segment has been loaded. -/
theorem spoilt_output_stays :
    (∀ j k, ¬ (new spoiltJobs { Config.standard with deviceDelay := 1 } .empty
      (.new none)).HasOutput j k) ∧
    Launches spoiltJobs { Config.standard with deviceDelay := 1 } .empty (.new none) spoiltFirst ∧
      ∃ past, Run spoiltFirst spoiltLast.tick.1 past spoiltLast.tick.2 ∧
        ¬ (spoiltLast.tick.2.HasOutput 0 2 ↔
          0 < spoiltJobs.length ∧ 1 ≤ 2 ∧ 2 ≤ (spoiltLast.tick.2.job 0).segments) := by
  obtain ⟨past, _, hrun⟩ := run_spoilt
  exact ⟨not_hasOutput_of_empty rfl, launches_spoilt, _, hrun, by decide +kernel⟩

end Launch

end Machine

end BatchMachine
