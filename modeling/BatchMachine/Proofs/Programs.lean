import BatchMachine.Proofs.Transfers

/-!
# The programs of jobs

The images that jobs run come from their texts. So what holds of all code in the texts of jobs
holds of everything that is executed in a run. In particular a run is lawful if no code in the texts
of its jobs raises a trap that is kept for devices.

* `JobText.Reader.isLawful`: the code in a text is lawful.
* `Machine.Deed.program`: where the image of a job comes from.
* `Machine.Abides`: the image of a job and what is left of its text are lawful.
* `Machine.Run.lawful`: runs of jobs with lawful texts are lawful.
-/

namespace BatchMachine

namespace JobText

/-- `line` is lawful as a line of code if it holds no instruction, or a lawful one. -/
def Line.isLawful (line : Line) : Bool :=
  line.instruction.toOption.all Instruction.isLawful

/-- All code in the rest of the text of `r` is lawful. -/
def Reader.isLawful (r : Reader) : Bool :=
  (parts r.rest).all fun part => (plainLines part.2).all Line.isLawful

/-- Lawful `lines` stand for lawful instructions. -/
theorem Line.isLawful_of_forall₂ {lines : List Line} {is : List Instruction}
    (hcode : List.Forall₂ (fun line i => line.instruction = .ok i) lines is)
    (h : lines.all Line.isLawful = true) : ∀ i ∈ is, i.isLawful = true := by
  induction hcode with
  | nil => simp
  | @cons line i lines is hline _ ih =>
    rw [List.all_cons, Bool.and_eq_true, Line.isLawful, hline] at h
    intro i' hi'
    rcases List.mem_cons.1 hi' with rfl | hmem
    · exact h.1
    · exact ih h.2 i' hmem

namespace Reader

variable {r r' : Reader}

/-- Whether the text of `r` is lawful depends on the lines from the next part on. -/
theorem isLawful_congr (h : r'.ahead = r.ahead) : r'.isLawful = r.isLawful := by
  unfold isLawful
  rw [← parts_jobLines r.rest, ← parts_jobLines r'.rest]
  exact congrArg (fun lines => (parts lines).all _) h

/-- `nextImage` gives lawful code if the text of `r` is lawful, and so is the rest of the text. -/
theorem isLawful_nextImage {is : List Instruction} (h : r.isLawful = true) (hpart : r.part ≠ .code)
    (hnext : r.nextImage = (.ok (some is), r')) :
    (∀ i ∈ is, i.isLawful = true) ∧ r'.part ≠ .code ∧ r'.isLawful = true := by
  obtain ⟨line, rest, name, hahead, _, hcode, _, rfl⟩ := (nextImage_eq_some_iff hpart).1 hnext
  have hparts : parts r.rest = (line, rest.takeWhile fun l => !l.isJob) :: parts rest :=
    parts_of_jobLines hahead
  rw [isLawful, hparts, List.all_cons, Bool.and_eq_true, plainLines_takeWhile] at h
  refine ⟨Line.isLawful_of_forall₂ hcode h.1, by simp, ?_⟩
  rw [isLawful, ← parts_jobLines, jobLines_fromControl, parts_jobLines]
  exact h.2

end Reader

end JobText

open JobText

namespace Machine

variable {m m' : Machine} {k : Nat} {e e' : Errand}

/-- What a turn from `m` to `m'` does to the image of job `k` and to its text. -/
inductive Supplies (m m' : Machine) (k : Nat) : Prop
  /-- Nothing. -/
  | keeps : (m'.job k).image = (m.job k).image → (m'.job k).boot = (m.job k).boot →
      m'.hardware.source? k = m.hardware.source? k →
      ((m'.job k).life ≠ .finished → (m.job k).life ≠ .finished) → Supplies m m' k
  /-- Job `k` is over, and its text is let go. -/
  | closes : (m'.job k).image = (m.job k).image → (m'.job k).life = .finished →
      m'.hardware.source? k = none → Supplies m m' k
  /-- The next `image` is loaded from the text `r`, which has been opened for it at the first
  time. -/
  | loads {r reader : Reader} {image : List Instruction} :
      m.hardware.source? k = some r ∨ ((m.job k).boot = .fresh ∧ (m.job k).life ≠ .finished ∧
        ∀ r', m.hardware.source? k = some r' → r' = r) →
      r.nextImage = (.ok (some image), reader) → (m'.job k).image = image.toArray →
      m'.hardware.source? k = some reader → Supplies m m' k

theorem Deed.supplies (hdeed : m.Deed m' k e e') (hon : m.On k e)
    (hruns : m.runs k = true → (m.job k).life ≠ .finished) : m.Supplies m' k := by
  -- the view of a job after a turn tells its image and its text
  have hkeeps : ∀ {v : View}, m'.view k = v → v.job.image = (m.view k).job.image →
      v.job.boot = (m.view k).job.boot → v.source? = (m.view k).source? →
      (v.job.life ≠ .finished → (m.view k).job.life ≠ .finished) → m.Supplies m' k := by
    rintro v rfl himage hboot hsource hlife
    exact .keeps himage hboot hsource hlife
  have hcloses : ∀ {v : View}, m'.view k = v.dismissed → v.job.image = (m.view k).job.image →
      m.Supplies m' k := by
    intro v hview himage
    refine .closes ?_ ?_ ?_
    · rw [← view_image, hview]
      exact himage
    · rw [← view_life, hview]
      rfl
    · rw [← view_source?, hview]
      rfl
  have hwaits : e ≠ .rest → (m.view k).job.life ≠ .finished := by
    intro hrest
    rw [hon.waits.2 hrest]
    decide
  cases hdeed with
  | stays _ hview => exact hkeeps hview rfl rfl rfl id
  | @boots r reader image s hboot hlife _ hsource hnext _ hview =>
    refine .loads (.inr ⟨hboot, by rw [hlife]; decide, hsource⟩) hnext ?_ ?_
    · rw [← view_image, hview]
      rfl
    · rw [← view_source?, hview]
      rfl
  | drops _ _ _ _ _ hview => exact hcloses hview rfl
  | steps _ _ _ _ _ hview => exact hkeeps hview rfl rfl rfl id
  | rejects _ _ _ _ hview => exact hkeeps hview rfl rfl rfl id
  | @reloads _ o r reader image s _ hsource hnext _ hview =>
    refine .loads (.inl hsource) hnext ?_ ?_
    · rw [← view_image, hview]
      rfl
    · rw [← view_source?, hview]
      rfl
  | retires _ _ hview => exact hcloses hview rfl
  | @asks side value hrun _ _ hview =>
    obtain ⟨_, hsource, hjob, _⟩ := hon.toOn.asks (j := k) side m.line.data value
    exact hkeeps hview (by rw [hjob]) (by rw [hjob]) hsource fun _ => hruns hrun
  | fails _ _ _ hview => exact hkeeps hview rfl rfl rfl id
  | fetches hview => exact hkeeps hview rfl rfl rfl fun _ => hwaits (by simp)
  | delivers hview => exact hkeeps hview rfl rfl rfl fun _ => hwaits (by simp)

/-- The image of job `k` is lawful, and so is what is left of its text. A job that has not been
booted has its text at hand. -/
structure Abides (m : Machine) (k : Nat) : Prop where
  image : ∀ i ∈ (m.job k).image, i.isLawful = true
  source : ∀ r, m.hardware.source? k = some r → r.part ≠ .code ∧ r.isLawful = true
  ready : (m.job k).boot = .fresh → (m.job k).life ≠ .finished →
    (m.hardware.source? k).isSome = true

theorem Abides.of_supplies (h : m.Abides k) (hsupplies : m.Supplies m' k) : m'.Abides k := by
  cases hsupplies with
  | keeps himage hboot hsource hlife =>
    refine ⟨himage ▸ h.image, hsource ▸ h.source, fun hfresh hunfinished => ?_⟩
    rw [hsource]
    exact h.ready (hboot ▸ hfresh) (hlife hunfinished)
  | closes himage hlife hsource =>
    exact ⟨himage ▸ h.image, by simp [hsource], fun _ hunfinished => absurd hlife hunfinished⟩
  | @loads r reader image horigin hnext himage hsource =>
    -- the text was open before, also that of a job that is booted only now
    have hr : m.hardware.source? k = some r := by
      rcases horigin with hopen | ⟨hfresh, hunfinished, hsame⟩
      · exact hopen
      · obtain ⟨r', hr'⟩ := Option.isSome_iff_exists.1 (h.ready hfresh hunfinished)
        rw [hr', hsame r' hr']
    obtain ⟨hpart, hlawful⟩ := h.source r hr
    obtain ⟨hcode, hpart', hlawful'⟩ := Reader.isLawful_nextImage hlawful hpart hnext
    refine ⟨?_, fun r' hr' => ?_, fun _ _ => by rw [hsource]; rfl⟩
    · rw [himage]
      simpa using hcode
    · obtain rfl := Option.some.inj (hsource.symm.trans hr')
      exact ⟨hpart', hlawful'⟩

theorem Abides.chore : KeptByChores k fun m _ => m.Abides k := by
  intro m m' e e' hk hchores _ _ hchore _ h
  have hjob := hchores.job k hk
  -- the reader after a read is further on in the same part of the text
  have hsource : ∀ r', m'.hardware.source? k = some r' → r'.part ≠ .code ∧ r'.isLawful = true := by
    intro r' hr'
    cases hchore with
    | keeps hsame | writes hsame => exact h.source r' (hsame ▸ hr')
    | @reads _ word hread =>
      rw [hr'] at hread
      cases hr : m.hardware.source? k with
      | none => simp [hr, Device.readWord] at hread
      | some r =>
        obtain ⟨hpart, hlawful⟩ := h.source r hr
        obtain ⟨r'', hnext, hpart', hahead, _⟩ := Reader.readWord_some hpart
        rw [← hr, hread] at hnext
        obtain rfl := Option.some.inj hnext
        exact ⟨hpart', (Reader.isLawful_congr hahead).trans hlawful⟩
  refine ⟨?_, hsource, ?_⟩
  · rw [← view_image, hjob]
    exact h.image
  · rw [← view_boot, ← view_life, hjob]
    intro hfresh hunfinished
    have hsome := h.ready hfresh hunfinished
    cases hchore with
    | keeps hsame | writes hsame => rw [hsame, hsome]
    | @reads _ word hread =>
      obtain ⟨r, hr⟩ := Option.isSome_iff_exists.1 hsome
      obtain ⟨r'', hnext, _⟩ := Reader.readWord_some (h.source r hr).1
      rw [← hr, hread] at hnext
      exact Option.isSome_iff_exists.2 ⟨r'', hnext⟩

/-- `m` executes lawful instructions if its jobs have lawful images. -/
theorem Sound.isLawful (h : m.Sound) (habides : ∀ k < m.jobs.size, m.Abides k) :
    m.isLawful = true := by
  unfold Machine.isLawful
  split
  · rename_i i hactivity
    change (m.hardware.cpu.tick (!m.idle)).1 = _ at hactivity
    rw [Processor.tick] at hactivity
    cases hidle : m.idle with
    | true =>
      have hpc : m.hardware.cpu.regs.isIdle = true := by
        rw [Registers.isIdle, (h.resting hidle).pc]
        decide
      rw [hidle, hpc] at hactivity
      split at hactivity <;> simp at hactivity
    | false =>
      rw [hidle] at hactivity
      have hstep : m.hardware.cpu.step.1 = .ok i := by
        split at hactivity
        · simp at hactivity
        · split at hactivity
          · simp at hactivity
          · split at hactivity
            · simp at hactivity
            · simpa using hactivity
      -- what is executed stands in the image of the job that runs, and that is lawful
      have hmem : i ∈ m.hardware.cpu.program := Processor.mem_of_step hstep
      rw [h.wired.program hidle] at hmem
      exact (habides m.current h.wired.current).image i hmem
  · rfl

section Launch

variable {jobs : List (Job × Option Reader)} {config : Config} {files : Files} {journal : Journal}
  {first : Machine} {p : Progress} {past : List Machine}

/-- Job `k` abides by the law in `first` if its text is lawful. -/
theorem Launches.abides (hlaunch : Launches jobs config files journal first)
    (hregular : (new jobs config files journal).Regular)
    (htexts : ∀ entry ∈ jobs, ∃ origin text, entry.2 = some (.ofText origin text) ∧
      (Reader.ofText origin text).isLawful = true) (hk : k < jobs.length) : first.Abides k := by
  obtain ⟨origin', text, hreader, hlawful⟩ := htexts jobs[k] (List.getElem_mem hk)
  obtain ⟨index, origin, path?, hview⟩ := exists_view_new config files journal hlaunch.1 hk
  have hstart : (new jobs config files journal).Abides k := by
    refine ⟨?_, fun r hr => ?_, fun _ _ => ?_⟩
    · rw [← view_image, hview]
      simp [Job.new]
    · rw [← view_source?, hview, hreader, Option.some.injEq] at hr
      subst hr
      exact ⟨by simp [Reader.ofText], hlawful⟩
    · rw [← view_source?, hview, hreader]
      rfl
  obtain ⟨hdeed, _⟩ := hlaunch.deed hregular hk
  exact hstart.of_supplies
    (hdeed.supplies (hlaunch.on_new hk) fun hrun => by simp [runs, new] at hrun)

/-- A run from `first` is lawful if the texts of its `jobs` are. -/
theorem Run.lawful (hlaunch : Launches jobs config files journal first)
    (hregular : (new jobs config files journal).Regular) (hfew : 2 * jobs.length < 2 ^ 31)
    (htexts : ∀ entry ∈ jobs, ∃ origin text, entry.2 = some (.ofText origin text) ∧
      (Reader.ofText origin text).isLawful = true) (hrun : Run first p past m) :
    ∀ x ∈ past, x.isLawful = true := by
  induction hrun with
  | start => simp
  | @tick past m m' p hrun htick ih =>
    have hsound := (hrun.sound hlaunch.sound).2 rfl
    intro x hx
    rcases List.mem_cons.1 hx with rfl | hmem
    · refine hsound.isLawful fun k hk => ?_
      have hk' : k < jobs.length := hrun.size hlaunch ▸ hk
      obtain ⟨e, _, habides⟩ := hrun.keeps hlaunch hregular hfew hk'
        (P := fun m _ => m.Abides k) (hlaunch.abides hregular htexts hk')
        (fun hsound _ _ _ hon _ hdeed h => h.of_supplies (hdeed.supplies hon fun hrun => by
          rw [(hsound.of_runs hrun).1]
          decide)) Abides.chore ih
      exact habides
    · exact ih x hmem

end Launch

end Machine

end BatchMachine
