import BatchMachine.Proofs.Origins
import BatchMachine.Proofs.Persistence
import BatchMachine.Proofs.Refinement

/-!
# Segments are loaded in their order

The loader and the input device of a job share one reader. Reading input takes lines of the section
at hand and never goes past the line that starts the next job, so that the segments ahead of the
reader are those that have not been loaded, however much a program has read of its input.

* `View.InOrder`: a job has come through the first segments of its text, none of them skipped.
* `View.InOrder.entered`, `Shift.inOrder`, `Move.inOrder`: nothing that is done to a job changes
  that.
* `Machine.segments_in_order`: so it is along every run, whatever the programs are.
-/

namespace BatchMachine

open JobText

/-- The sink `s` stays with its file when `text` is handed over, and no other file changes. -/
theorem Sink.transfer_spec (s : Sink) (text : String) (files : Files) :
    (s.transfer text files).2.1.target = s.target ∧
      ((s.transfer text files).2.2 = files ∨
        (s.transfer text files).2.2 = files.append s.target text) := by
  rcases s with ⟨target, _ | pending | ⟨_ | _, _ | _ | n⟩⟩ <;> simp [transfer, write, flush]

/-- A tick of the device `d` leaves `files` as they are, or adds text to one of them. -/
theorem Device.files_tick (d : Device) (line : TrapLine) (source? : Option Reader)
    (files : Files) : (d.tick line source? files).files = files ∨
      ∃ loc more, (d.tick line source? files).files = files.append loc more := by
  have hwrite : ∀ (w : Word) (sink? : Option Sink), (writeWord w files sink?).2.2 = files ∨
      ∃ loc more, (writeWord w files sink?).2.2 = files.append loc more := by
    intro w sink?
    cases sink? with
    | none => exact .inl rfl
    | some s => exact (s.transfer_spec _ files).2.imp_right fun hadds => ⟨_, _, hadds⟩
  have htransfer : (d.transfer source? files).files = files ∨
      ∃ loc more, (d.transfer source? files).files = files.append loc more := by
    unfold transfer
    cases d.link with
    | input job? =>
      simp only
      split <;> exact .inl rfl
    | output buffer sink? => exact hwrite buffer sink?
  rcases tick_cases d line source? files with
    ⟨_, htick⟩ | ⟨_, ⟨_, htick⟩ | ⟨_, htick⟩ | ⟨_, _, htick⟩ | ⟨_, _, htick⟩⟩ <;> rw [htick]
  case inr.inr.inr.inr => exact htransfer
  all_goals exact .inl rfl

/-- A tick of the device `d` changes files at most. -/
theorem Device.alike_tick (d : Device) (line : TrapLine) (source? : Option Reader)
    (files : Files) : files.Alike (d.tick line source? files).files := by
  rcases d.files_tick line source? files with hsame | ⟨loc, more, happend⟩
  · rw [hsame]
    exact .refl _
  · rw [happend]
    exact Files.alike_append _ _ _

/-- A tick of the device `d` leaves a text as it is, or reads a word of it. -/
theorem Device.source?_tick (d : Device) (line : TrapLine) (source? : Option Reader)
    (files : Files) : (d.tick line source? files).source? = source? ∨
      (d.tick line source? files).source? = (readWord source?).2 := by
  have htransfer : (d.transfer source? files).source? = source? ∨
      (d.transfer source? files).source? = (readWord source?).2 := by
    unfold transfer
    cases d.link with
    | input job? =>
      right
      rcases hword : readWord source? with ⟨_ | _, _⟩ <;> rfl
    | output buffer sink? => exact .inl rfl
  rcases tick_cases d line source? files with
    ⟨_, htick⟩ | ⟨_, ⟨_, htick⟩ | ⟨_, htick⟩ | ⟨_, _, htick⟩ | ⟨_, _, htick⟩⟩ <;> rw [htick]
  case inr.inr.inr.inr => exact htransfer
  all_goals exact .inl rfl

namespace View

variable {v v' : View} {ss : List Segment} {j : Nat}

/-- The job of `v` has come through the first segments of its text, `ss`, none of them skipped. -/
structure InOrder (v : View) (ss : List Segment) : Prop where
  /-- No more segments have been loaded than there are. -/
  segments : v.job.segments ≤ ss.length
  /-- The job has the name and the code of the latest one. -/
  latest : ∀ k, v.job.segments = k + 1 →
    ∃ s, ss[k]? = some s ∧ v.job.name = s.name ∧ v.job.image = s.code.toArray
  /-- The others are ahead of the reader of a job that is not over, and once the job is booted what
  is left of its input are words. -/
  ahead : v.job.life ≠ .finished → ∃ r, v.source? = some r ∧ r.part ≠ .code ∧ r.healthy = true ∧
    Holds r.rest (ss.drop v.job.segments) ∧
    (v.job.boot = .booted →
      ∃ words, List.Forall₂ (fun line w => line.input = .ok w) r.unread words)
  /-- A job that is over has come through all. -/
  finished : v.job.life = .finished → v.job.segments = ss.length

/-- Registers, requests and devices do not matter for `InOrder`. -/
theorem InOrder.of_same (h : v.InOrder ss) (hsegments : v'.job.segments = v.job.segments)
    (hname : v'.job.name = v.job.name) (himage : v'.job.image = v.job.image)
    (hboot : v'.job.boot = v.job.boot) (hsource : v'.source? = v.source?)
    (hlife : v'.job.life = .finished ↔ v.job.life = .finished) : v'.InOrder ss where
  segments := hsegments.trans_le h.segments
  latest := by
    rw [hsegments, hname, himage]
    exact h.latest
  ahead hunfinished := by
    rw [hsource, hsegments, hboot]
    exact h.ahead (mt hlife.2 hunfinished)
  finished hover := hsegments.trans (h.finished (hlife.1 hover))

/-- The segment that is loaded next is the first of those among `ss` that have not been loaded. -/
theorem InOrder.entered (h : v.InOrder ss) {r reader : Reader} {image : List Instruction}
    (hlife : v.job.life ≠ .finished) (hsource : ∀ r', v.source? = some r' → r' = r)
    (hnext : r.nextImage = (.ok (some image), reader))
    (hsegments : v'.job.segments = v.job.segments + 1) (hname : v'.job.name = reader.name)
    (himage : v'.job.image = image.toArray) (hsource' : v'.source? = some reader)
    (hlife' : v'.job.life = .runnable) : v'.InOrder ss := by
  obtain ⟨r', hr', hpart, hhealthy, hholds, _⟩ := h.ahead hlife
  obtain rfl := hsource r' hr'
  obtain ⟨s, after, hafter, rfl, hnamed, hpart', hhealthy', hholds', hwords⟩ :=
    Reader.holds_of_nextImage hpart hholds hnext
  have hget : ss[v.job.segments]? = some s := by
    have hfirst := congrArg (·[0]?) hafter
    simpa using hfirst
  have hlt : v.job.segments < ss.length := (List.getElem?_eq_some_iff.1 hget).1
  have hrest : ss.drop v'.job.segments = after := by
    rw [hsegments, ← List.tail_drop, hafter, List.tail_cons]
  constructor
  case segments => omega
  case latest =>
    -- the latest segment is now the one that was first ahead
    intro k hk
    obtain rfl : k = v.job.segments := by omega
    exact ⟨s, hget, hname.trans hnamed, himage⟩
  case ahead =>
    exact fun _ => ⟨reader, hsource', hpart', hhealthy'.trans hhealthy, hrest ▸ hholds',
      fun _ => ⟨_, hwords⟩⟩
  case finished =>
    rw [hlife']
    simp

/-- The job of `v`, if it is over when nothing is ahead, has come through all of `ss`. -/
theorem InOrder.closed (h : v.InOrder ss) (hnone : ss.drop v.job.segments = [])
    (hsegments : v'.job.segments = v.job.segments) (hname : v'.job.name = v.job.name)
    (himage : v'.job.image = v.job.image) (hlife : v'.job.life = .finished) : v'.InOrder ss := by
  have hall := List.drop_eq_nil_iff.1 hnone
  constructor
  case segments => exact hsegments.trans_le h.segments
  case latest =>
    rw [hsegments, hname, himage]
    exact h.latest
  case ahead => exact fun hunfinished => absurd hlife hunfinished
  case finished => exact fun _ => hsegments.trans (Nat.le_antisymm h.segments hall)

/-- `View.offered` leaves the text alone. -/
theorem source?_offered (v : View) (j : Nat) : (v.offered j).source? = v.source? := by
  rcases v.offered_cases j with hsame | ⟨side, r, _, _, htaken⟩
  · rw [hsame]
  · rw [htaken]
    exact source?_withDevice _ _ _

theorem InOrder.offered (h : v.InOrder ss) (j : Nat) : (v.offered j).InOrder ss := by
  obtain ⟨pending?, hjob⟩ := job_offered v j
  refine h.of_same ?_ ?_ ?_ ?_ (source?_offered v j) ?_ <;> rw [hjob]

theorem InOrder.asks (h : v.InOrder ss) (hlife : v.job.life ≠ .finished) (j : Nat) (side : Side)
    (register value : Word) : (v.asks j side register value).InOrder ss := by
  have hasking : ∀ (target? : Option Word) (r : DeviceRequest), (v.asking target? r).InOrder ss :=
    fun _ _ => h.of_same rfl rfl rfl rfl rfl (by simp [asking, hlife])
  cases side with
  | input => exact (hasking _ _).offered j
  | output => exact (hasking _ _).offered j

/-- Clearing the trap line of the device on `side` leaves the job and its text alone. -/
theorem InOrder.acknowledged (h : v.InOrder ss) (side : Side) :
    (v.acknowledged side).InOrder ss := by
  have hjob : (v.acknowledged side).job = v.job := job_withDevice _ _ _
  refine h.of_same ?_ ?_ ?_ ?_ (source?_withDevice _ _ _) ?_ <;> rw [hjob]

/-- The job of `v`, when it has fetched a word, is over if it was. -/
theorem InOrder.collected (h : v.InOrder ss) (side : Side) : (v.collected side).InOrder ss := by
  refine h.of_same rfl rfl rfl rfl (source?_withDevice _ _ _) ?_
  simp only [View.collected]
  by_cases hlife : v.job.life = .waiting
  · simp [hlife]
  · rw [if_neg hlife]

/-- The input device of job `j` reads words of the section at hand, of which only words are left. -/
theorem InOrder.inputTicked (h : v.InOrder ss) (hsound : v.Sound j) (line : TrapLine)
    (files : Files) :
    View.InOrder { v with
      input := (v.input.tick line (v.input.job?.bind fun _ => v.source?) files).device
      source? := if v.input.job?.isSome then
        (v.input.tick line (v.input.job?.bind fun _ => v.source?) files).source?
        else v.source? } ss where
  segments := h.segments
  latest := h.latest
  finished := h.finished
  ahead hunfinished := by
    obtain ⟨r, hsource, hpart, hhealthy, hholds, hwords⟩ := h.ahead hunfinished
    cases hboot : v.job.boot with
    | fresh =>
      -- the device has no job yet whose text it could read
      simp only [(hsound.fresh hboot hunfinished).input, Option.isSome_none, Bool.false_eq_true,
        if_false]
      exact ⟨r, hsource, hpart, hhealthy, hholds, by simp⟩
    | booted =>
      obtain ⟨words, hinput⟩ := hwords hboot
      simp only [(hsound.booted hboot hunfinished).input, Option.isSome_some, if_true,
        Option.bind_some, hsource]
      rcases Device.source?_tick v.input line (some r) files with hsame | hread
      · exact ⟨r, hsame, hpart, hhealthy, hholds, fun _ => ⟨words, hinput⟩⟩
      · obtain ⟨r', hnext, hpart', hahead, hhealthy', hinput', _⟩ :=
          Reader.readWord_words hpart hinput
        exact ⟨r', hread.trans hnext, hpart', hhealthy'.trans hhealthy, hholds.congr hahead,
          fun _ => ⟨_, hinput'⟩⟩

end View

namespace Machine

variable {m m' : Machine} {j : Nat} {ss : List Segment}

/-- Job `j`, if it cannot load a segment although its output files can be created, is through all of
`ss`. -/
theorem Barred.drop_eq_nil {files : Files} (h : m.Barred j files) (hcreates : m.Creates j ss.length)
    (hsize : ∀ s ∈ ss, s.code.length ≤ imageLimit) (halike : m.hardware.files.Alike files)
    (hlife : (m.view j).job.life ≠ .finished) (hin : (m.view j).InOrder ss) :
    ss.drop (m.view j).job.segments = [] := by
  obtain ⟨r, hr, hpart, hhealthy, hholds, _⟩ := hin.ahead hlife
  refine h.eq_nil hcreates ?_ halike hr hpart hhealthy hholds
    fun s hs => hsize s (List.mem_of_mem_drop hs)
  have hle := hin.segments
  rw [view_segments] at hle
  rw [List.length_drop, view_segments]
  omega

/-- The search for the next job keeps the segments of job `j` in order. -/
theorem Shift.inOrder (hshift : m.Shift m' j) (hcreates : m.Creates j ss.length)
    (hsize : ∀ s ∈ ss, s.code.length ≤ imageLimit) (hin : (m.view j).InOrder ss) :
    (m'.view j).InOrder ss := by
  cases hshift with
  | stays hview => exact hview ▸ hin
  | boots _ hlife _ hsource hnext _ _ _ hview =>
    have hunfinished : (m.view j).job.life ≠ .finished := by simp [hlife]
    rw [hview]
    exact hin.entered hunfinished hsource hnext rfl rfl rfl rfl rfl
  | drops _ hlife hopens hbarred hview =>
    have hunfinished : (m.view j).job.life ≠ .finished := by simp [hlife]
    have hnone := hbarred.drop_eq_nil hcreates hsize hopens.alike hunfinished hin
    rw [hview]
    exact hin.closed hnone rfl rfl rfl rfl

/-- A turn from `m` to `m'` keeps the segments of job `j` in order. -/
theorem Move.inOrder (h : m.Sound) (hj : j < m.jobs.size) (hmove : m.Move m' j)
    (hcreates : m.Creates j ss.length) (hsize : ∀ s ∈ ss, s.code.length ≤ imageLimit)
    (hin : (m.view j).InOrder ss) : (m'.view j).InOrder ss := by
  cases hmove with
  | shifts _ hshift => exact hshift.inOrder hcreates hsize hin
  | steps _ _ _ _ _ hview =>
    rw [hview]
    exact hin.of_same rfl rfl rfl rfl rfl Iff.rfl
  | rejects _ _ _ _ hview => exact hview ▸ hin
  | reloads _ hsource hnext _ _ hview =>
    -- a job that is over has no text that a segment could come from
    have hunfinished : (m.view j).job.life ≠ .finished := by
      intro hlife
      rw [← view_source?, ((h.job j hj).finished hlife).source] at hsource
      simp at hsource
    have hsame : ∀ r', (m.view j).source? = some r' → r' = _ := fun r' hr' =>
      Option.some.inj (hr'.symm.trans hsource)
    rw [hview]
    exact hin.entered hunfinished hsame hnext rfl rfl rfl rfl rfl
  | retires _ hbarred hview =>
    -- an error can be charged to a job that is over, and then it retires once more
    have hnone : ss.drop (m.view j).job.segments = [] := by
      by_cases hlife : (m.view j).job.life = .finished
      · rw [hin.finished hlife, List.drop_length]
      · exact hbarred.drop_eq_nil hcreates hsize (.refl _) hlife hin
    rw [hview]
    exact hin.closed hnone rfl rfl rfl rfl
  | asks hrun _ _ hview =>
    have hlife := (h.of_runs hrun).1
    rw [hview]
    exact hin.asks (by simp [hlife]) _ _ _ _
  | fails _ _ _ _ hview => exact hview ▸ hin.acknowledged _
  | collects _ _ hview => exact hview ▸ hin.collected _

/-- The segments `ss` of job `j` come in order, and their output files can be created. -/
structure Sequenced (m : Machine) (j : Nat) (ss : List Segment) : Prop where
  known : j < m.jobs.size
  creates : m.Creates j ss.length
  inOrder : (m.view j).InOrder ss

/-- Ticks keep the segments of job `j` in order, whatever the programs are. -/
theorem Sequenced.persists (hsize : ∀ s ∈ ss, s.code.length ≤ imageLimit) :
    Persists (fun _ => True) fun m => m.Sequenced j ss where
  -- no step takes a path away from the outputs, so the files of the segments to come can still be
  -- created: each clause carries that along with the order
  agrees := by
    intro m m' hagrees ⟨hj, hcreates, hin⟩
    refine ⟨hagrees.size ▸ hj, hcreates.of_alike (congrArg Control.config hagrees.control) ?_,
      hagrees.view ▸ hin⟩
    rw [hagrees.hardware]
    exact .refl _
  turned := by
    intro m m₀ m₁ p _ _ hoffers hsound₀ hturned ⟨hj, hcreates, hin⟩
    have hj₀ : j < m₀.jobs.size := hoffers.size ▸ hj
    have hcreates₀ : m₀.Creates j ss.length :=
      hcreates.of_alike (congrArg Control.config hoffers.control) (hoffers.files ▸ .refl _)
    have hin₀ : (m₀.view j).InOrder ss := hoffers.view j hj ▸ hin.offered j
    exact ⟨hturned.size ▸ hj₀, hcreates₀.of_alike hturned.config hturned.opens.alike,
      (hturned.move j hj₀).inOrder hsound₀ hj₀ hcreates₀ hsize hin₀⟩
  inputTicks := by
    intro i m m' hsound hi hticks ⟨hj, hcreates, hin⟩
    refine ⟨hj.trans_eq (congrArg Control.size hticks.control).symm,
      hcreates.of_alike (congrArg Control.config hticks.control) (hticks.files ▸ .refl _), ?_⟩
    by_cases hji : j = i
    · subst hji
      rw [hticks.ticked]
      exact hin.inputTicked (hsound.job j hj) _ _
    · exact hticks.view j hji ▸ hin
  outputTicks := by
    intro i m m' hsound hi hticks ⟨hj, hcreates, hin⟩
    refine ⟨hj.trans_eq (congrArg Control.size hticks.control).symm,
      hcreates.of_alike (congrArg Control.config hticks.control) ?_, ?_⟩
    · rw [hticks.files]
      exact Device.alike_tick _ _ _ _
    · by_cases hji : j = i
      · subst hji
        rw [hticks.ticked]
        exact hin.of_same rfl rfl rfl rfl rfl Iff.rfl
      · exact hticks.view j hji ▸ hin

/-! ## Loading, one by one -/

/-- The search for the next job loads at most one segment of job `j`. -/
theorem Shift.segments (hshift : m.Shift m' j) :
    (m'.job j).segments = (m.job j).segments ∨ (m'.job j).segments = (m.job j).segments + 1 := by
  rw [← view_segments, ← view_segments]
  cases hshift with
  | stays hview => exact .inl (by rw [hview])
  | boots _ _ _ _ _ _ _ _ hview => exact .inr (by rw [hview]; rfl)
  | drops _ _ _ _ hview => exact .inl (by rw [hview]; rfl)

/-- A turn from `m` to `m'` loads at most one segment of job `j`. -/
theorem Move.segments (hmove : m.Move m' j) :
    (m'.job j).segments = (m.job j).segments ∨ (m'.job j).segments = (m.job j).segments + 1 := by
  rw [← view_segments, ← view_segments]
  cases hmove with
  | shifts _ hshift => exact hshift.segments
  | steps _ _ _ _ _ hview => exact .inl (by rw [hview])
  | rejects _ _ _ _ hview => exact .inl (by rw [hview])
  | reloads _ _ _ _ _ hview => exact .inr (by rw [hview]; rfl)
  | retires _ _ hview => exact .inl (by rw [hview]; rfl)
  | asks _ _ _ hview =>
    obtain ⟨pending?, target?, hjob⟩ := View.job_asks (m.view j) j _ _ _
    exact .inl (by rw [hview, hjob])
  | fails _ _ _ _ hview => exact .inl (by rw [hview, View.acknowledged, View.job_withDevice])
  | collects _ _ hview => exact .inl (by rw [hview]; rfl)

/-- `tick` loads at most one segment of job `j`. -/
theorem Sound.segments_tick (h : m.Sound) {p : Progress} (htick : m.tick = (p, m'))
    (hj : j < m.jobs.size) :
    (m'.job j).segments = (m.job j).segments ∨ (m'.job j).segments = (m.job j).segments + 1 := by
  obtain ⟨m₀, hoffers, _, hmove⟩ := h.move_of_tick
  rw [(h.unmoved_of_tick htick j).segments, ← (hoffers.unmoved hj).segments]
  exact (hmove j hj).segments

/-- `loadNext` raises the number of segments of job `j` by one when it is successful. -/
theorem segments_loadNext (w : m.Wired) (hj : j < m.jobs.size)
    (h : m.loadNext j = (.ok true, m')) : (m'.job j).segments = (m.job j).segments + 1 := by
  rcases loadNext_cases w hj with ⟨m₁, image, reader, hload, hloads⟩ | ⟨m₁, res, hload, hres, _⟩
  · obtain rfl : m₁ = m' := (Prod.mk.inj (hload.symm.trans h)).2
    obtain ⟨loc, _, hview⟩ := hloads.entered
    rw [← view_segments, hview]
    rfl
  · exact absurd (Prod.mk.inj (hload.symm.trans h)).1 hres

section Launch

variable {jobs : List (Job × Option Reader)} {config : Config} {files : Files} {journal : Journal}
  {first : Machine} {p : Progress} {past : List Machine}

/-- Before the start job `j` has all its segments `ss` ahead. -/
theorem inOrder_new
    (hjobs : ∀ entry ∈ jobs, ∃ index origin path?, entry.1 = Job.new index origin path?)
    (hj : j < jobs.length) {origin text : String}
    (hreader : jobs[j].2 = some (.ofText origin text))
    (hreads : (Reader.ofText origin text).segments.1 = .ok ss) :
    ((new jobs config files journal).view j).InOrder ss := by
  obtain ⟨index, origin', path?, hview⟩ := exists_view_new config files journal hjobs hj
  have hpart : (Reader.ofText origin text).part ≠ .code := by simp [Reader.ofText]
  rw [hview]
  constructor
  case segments => exact Nat.zero_le _
  case latest => exact fun k hk => absurd hk.symm (Nat.succ_ne_zero k)
  case ahead =>
    exact fun _ => ⟨_, hreader, hpart, rfl, Reader.holds_of_segments hpart (Prod.ext hreads rfl),
      by simp [Job.new]⟩
  case finished => simp [Job.new]

theorem Launches.sequenced (hlaunch : Launches jobs config files journal first)
    (hj : j < jobs.length) {origin text : String}
    (hreader : jobs[j].2 = some (.ofText origin text))
    (hreads : (Reader.ofText origin text).segments.1 = .ok ss)
    (hsize : ∀ s ∈ ss, s.code.length ≤ imageLimit)
    (hcreates : (new jobs config files journal).Creates j ss.length) :
    first.Sequenced j ss := by
  have hsettles := hlaunch.hands.settles
  exact ⟨hlaunch.size ▸ hj, hcreates.of_alike hsettles.config hsettles.opens.alike,
    (hlaunch.shift hj).inOrder hcreates hsize (inOrder_new hlaunch.1 hj hreader hreads)⟩

/-- Job `j` goes through the segments `ss` of its text in their order, and skips none. Let these fit
the processor and their output files be such that they can be created, and whatever the programs do,
of this job or the others, and however much of its input it reads: in every machine `m` of the run
the job has loaded no more segments than there are, it has the name and the code of the latest one,
and when it is over it has loaded all. A tick loads at most one of them, and `loadNext` raises their
number by one when it succeeds. -/
theorem segments_in_order (hlaunch : Launches jobs config files journal first)
    (hj : j < jobs.length) {origin text : String}
    (hreader : jobs[j].2 = some (.ofText origin text))
    (hreads : (Reader.ofText origin text).segments.1 = .ok ss)
    (hsize : ∀ s ∈ ss, s.code.length ≤ imageLimit)
    (hcreates : (new jobs config files journal).Creates j ss.length)
    (hrun : Run first p past m) :
    (m.job j).segments ≤ ss.length ∧
    (∀ k, (m.job j).segments = k + 1 → ∃ s, ss[k]? = some s ∧ (m.job j).name = s.name ∧
      (m.job j).image = s.code.toArray) ∧
    ((m.job j).life = .finished → (m.job j).segments = ss.length) ∧
    (∀ p' m', p = .running → m.tick = (p', m') →
      (m'.job j).segments = (m.job j).segments ∨
        (m'.job j).segments = (m.job j).segments + 1) ∧
    ∀ x x' : Machine, x.Wired → j < x.jobs.size → x.loadNext j = (.ok true, x') →
      (x'.job j).segments = (x.job j).segments + 1 := by
  have hfirst := hlaunch.sequenced hj hreader hreads hsize hcreates
  obtain ⟨hj', _, hin⟩ := (Sequenced.persists hsize).run hlaunch.sound hrun
    (fun _ _ => trivial) hfirst
  refine ⟨hin.segments, hin.latest, hin.finished, fun p' m' hp htick => ?_,
    fun x x' w hx hload => segments_loadNext w hx hload⟩
  exact ((hrun.sound hlaunch.sound).2 hp).segments_tick htick hj'

/-- A text of three segments. The first one reads one of its two words, and the second has no
instructions. -/
def relayText : String :=
  "$JOB reader\nf 2 1\n$RUN\n7\n8\n$JOB idler\n$JOB last\nf 1 1\n"

/-- The segments of `relayText`. -/
def relaySegments : List Segment :=
  [⟨"reader", [⟨.trap, 2, 1, 0⟩], some [7, 8]⟩, ⟨"idler", [], none⟩,
    ⟨"last", [⟨.trap, 1, 1, 0⟩], none⟩]

/-- A job with the text `relayText`, beside one that reads two words. -/
def relayJobs : List (Job × Option Reader) :=
  [(.new 0 "first" none, some (.ofText "first" relayText)),
    (.new 1 "second" none, some (.ofText "second" "$JOB second\nf 2 1\nf 2 1\n$RUN\n5\n6\n"))]

/-- The machine of `relayJobs` after their start, with devices that need one tick. -/
def relayFirst : Machine :=
  (new relayJobs { Config.standard with deviceDelay := 1 } .empty (.new none)).start.2

/-- After ten ticks the first of the two jobs is over, and it has come through its three
segments. -/
theorem segments_in_order_relay :
    ((tickUpTo 10 relayFirst).2.job 0).life = .finished ∧
      ((tickUpTo 10 relayFirst).2.job 0).segments = 3 ∧
      ∀ k, ((tickUpTo 10 relayFirst).2.job 0).segments = k + 1 → ∃ s, relaySegments[k]? = some s ∧
        ((tickUpTo 10 relayFirst).2.job 0).name = s.name ∧
        ((tickUpTo 10 relayFirst).2.job 0).image = s.code.toArray := by
  have hlaunch : Launches relayJobs { Config.standard with deviceDelay := 1 } .empty (.new none)
      relayFirst :=
    launches_of_isOk (by decide +kernel) (by decide +kernel)
  have hstate : (tickUpTo 10 relayFirst).1 = none ∧
      ((tickUpTo 10 relayFirst).2.job 0).life = .finished := by decide +kernel
  obtain ⟨hnone, hover⟩ := hstate
  obtain ⟨past, hrun, _⟩ := run_of_tickUpTo (m := relayFirst) (n := 10) hnone
  have hreads : (Reader.ofText "first" relayText).segments.1 = .ok relaySegments := by rfl
  have hcreates : (new relayJobs { Config.standard with deviceDelay := 1 } .empty
      (.new none)).Creates 0 relaySegments.length :=
    creates_of_isOk (by decide +kernel)
  obtain ⟨_, hlatest, hall, _⟩ :=
    segments_in_order hlaunch (j := 0) (by decide) rfl hreads (by decide) hcreates hrun
  exact ⟨hover, hall hover, hlatest⟩

end Launch

end Machine

end BatchMachine
