import BatchMachine.Proofs.Programs
import BatchMachine.Proofs.Solo

/-!
# Running jobs at the same time, and one of them alone

A job that runs with others does what it would do alone. Between ticks the machine has come to a
state of the segment as it runs alone: a word that the job waits for has not been read there yet,
and a word that it waits to be written has not been written. A turn of the processor or a tick of a
device takes a job to the next such state, or leaves it where it is.

* `Machine.Speaks`, `Machine.Shows`: what a job itself has on the processor's line.
* `Machine.Mirrors`: the machine and a segment that runs alone have come to the same.
* `Machine.Follows`: the same for all segments of a job.
* `Machine.refines`: a job that is over has ended as it would have alone.
-/

namespace BatchMachine

open JobText

namespace Machine

variable {m m₁ m' : Machine} {j k : Nat} {e e' : Errand} {line : TrapLine}

/-! ## What a job has on the processor's line -/

/-- What is on the processor's line, if anything, comes from job `j`, which runs. -/
structure Speaks (m : Machine) (j : Nat) : Prop where
  runs : m.runs j = true
  culprit : m.culprit? = none
  completion : ∀ side : Side, m.line.trap? ≠ some side.completion

/-- `line` carries what the processor's line carries from job `j`. -/
structure Shows (m : Machine) (j : Nat) (line : TrapLine) : Prop where
  calm : line.isIdle = true → m.Speaks j → m.line.isIdle = true
  pending : line.isIdle = false → m.Speaks j ∧ m.line = line

theorem Shows.of_calm (h : m.Speaks j → m.line.isIdle = true) (hline : line.isIdle = true) :
    m.Shows j line :=
  ⟨fun _ => h, fun hpending => by simp [hline] at hpending⟩

/-- What job `j` has on the processor's line is what is there if the job speaks. -/
theorem Shows.eq_line (h : m.Shows j line) (hspeaks : m.Speaks j) (hline : m.line.isIdle = false) :
    m.line = line := by
  cases hidle : line.isIdle with
  | true =>
    rw [h.calm hidle hspeaks] at hline
    simp at hline
  | false => exact (h.pending hidle).2

/-- While nothing is on the processor's line job `j` has nothing there. -/
theorem Shows.isIdle (h : m.Shows j line) (hline : m.line.isIdle = true) : line.isIdle = true := by
  by_contra hidle
  rw [← (h.pending (by simpa using hidle)).2, hline] at hidle
  exact hidle rfl

/-- The turn of `m` is about job `j` if it speaks. -/
theorem Speaks.subject? (h : m.Speaks j) : m.subject? = some j := by
  by_cases hfatal : m.line.trap? = some .fatal
  · rw [subject?_of_fatal hfatal, h.culprit]
    exact congrArg some (runs_eq_true_iff.1 h.runs).2
  · rw [subject?_of_running h.completion hfatal, running?_eq_some_iff.2 h.runs]

/-- A turn that neither executes an instruction of job `j` nor turns what it has put on the line
into an error leaves nothing of the job on the line. -/
theorem Lines.calm_of (h : m.Lines m') (hsteps : m.runs j = true → m.line.isIdle = true →
    m.hardware.cpu.atEnd = true) (hmisuses : m.runs j = true → ¬ m.Misuses) :
    m'.Speaks j → m'.line.isIdle = true := by
  intro hspeaks
  cases h with
  | calm hclear => exact hclear
  | steps hclear _ hend _ hcontrol =>
    rw [hsteps ((runs_congr hcontrol).symm.trans hspeaks.runs) hclear] at hend
    simp at hend
  | rejects hmis _ hcontrol =>
    exact absurd hmis (hmisuses ((runs_congr hcontrol).symm.trans hspeaks.runs))
  | fails _ _ _ _ hcontrol =>
    have hnone := hspeaks.culprit
    rw [show m'.culprit? = some _ from congrArg Control.culprit? hcontrol] at hnone
    simp at hnone

/-- After a turn that serves a `trap` other than a request nothing of job `j` is on the line. -/
theorem Lines.calm_of_trap (h : m.Lines m') {trap : Trap} (htrap : m.line.trap? = some trap)
    (hrequest : ∀ side : Side, trap ≠ side.request) : m'.Speaks j → m'.line.isIdle = true :=
  h.calm_of (fun _ hidle => absurd hidle (TrapLine.not_isIdle htrap)) fun _ =>
    not_misuses htrap hrequest

/-- After a turn that is not about job `j` nothing of the job is on the line. -/
theorem Lines.calm_of_subject (h : m.Lines m') (hsound : m.Sound) (hsubject : m.subject? ≠ some j) :
    m'.Speaks j → m'.line.isIdle = true := by
  refine h.calm_of (fun hrun hidle => absurd ?_ hsubject) fun hrun hmisuses => absurd ?_ hsubject
  · exact (subject?_of_isIdle hidle).trans (running?_eq_some_iff.2 hrun)
  · rw [(hmisuses.subject? hsound).2, (runs_eq_true_iff.1 hrun).2]

/-- What job `j` has on the line stays there when a device ticks. -/
theorem Shows.of_chores (h : m.Shows j line) (hchores : m.Chores m') : m'.Shows j line := by
  have hruns := runs_congr (j := j) hchores.control
  have hculprit : m'.culprit? = m.culprit? := congrArg Control.culprit? hchores.control
  rcases hchores.line with hline | ⟨hclear, side, hsignal⟩
  · refine ⟨fun hidle ⟨hrun, hnone, hother⟩ => ?_, fun hpending => ?_⟩
    · rw [hline]
      exact h.calm hidle ⟨hruns ▸ hrun, hculprit ▸ hnone, hline ▸ hother⟩
    · obtain ⟨⟨hrun, hnone, hother⟩, hsame⟩ := h.pending hpending
      exact ⟨⟨hruns.trans hrun, hculprit.trans hnone, hline.symm ▸ hother⟩, hline.trans hsame⟩
  · -- a completion on the line does not come from a job that runs
    exact .of_calm (fun hspeaks => absurd hsignal (hspeaks.completion side)) (h.isIdle hclear)

end Machine

/-! ## The machine and a job that runs alone -/

namespace Errand

/-- The words that are left in the text of a job on this errand, of the `words` that it has not read
alone. -/
def left : Errand → List Word → List Word
  | got _ _, words => words.tail
  | _, words => words

/-- The words that are in the output file of a job on this errand, which has written `words`
alone. -/
def out : Errand → List Word → List Word
  | wrote w, words => words ++ [w]
  | _, words => words

/-- What job `j` on the errand `e` has asked for is pending in `s`, where it runs alone. -/
def Pends (m : Machine) (j : Nat) (s : Solo) (e : Errand) : Prop :=
  match e with
  | rest => m.Shows j s.cpu.trap
  | reads r => s.cpu.trap.trap? = some .getw ∧ s.cpu.trap.data = r ∧
      (s.cpu.regs.get? r).isSome = true
  | got r w => s.cpu.trap.trap? = some .getw ∧ s.cpu.trap.data = r ∧
      (s.cpu.regs.get? r).isSome = true ∧ s.unread.head? = some w
  | missed r => s.cpu.trap.trap? = some .getw ∧ s.cpu.trap.data = r ∧
      (s.cpu.regs.get? r).isSome = true ∧ s.unread = []
  | writes w | wrote w => s.cpu.trap.trap? = some .putw ∧
      s.cpu.regs.get? s.cpu.trap.data = some w

end Errand

namespace Machine

variable {m m₁ m' : Machine} {j k : Nat} {e e' : Errand} {c : Course j} {o : Outcome} {s : Solo}

/-- Job `j` on the errand `e` has come as far as it has alone, which is `c`. -/
structure Mirrors (m : Machine) (j : Nat) (e : Errand) (c : Course j) : Prop where
  booted : (m.view j).job.boot = .booted
  unfinished : (m.view j).job.life ≠ .finished
  segments : (m.view j).job.segments = c.before.length + 1
  image : (m.view j).job.image = c.segment.code.toArray
  registers : (m.view j).job.registers = c.solo.cpu.regs
  source : ∃ r, (m.view j).source? = some r ∧ r.part ≠ .code ∧ r.healthy = true ∧
    Holds r.rest c.after ∧
    List.Forall₂ (fun line w => line.input = .ok w) r.unread (e.left c.solo.unread)
  files : ∀ i result, c.results[i]? = some result → m.Wrote j (i + 1) (written result.2)
  file : m.Wrote j (c.before.length + 1) (written (e.out c.solo.words))
  pends : e.Pends m j c.solo

/-- Job `j` on the errand `e` follows the segments `ss` of its text. -/
inductive Follows (m : Machine) (j : Nat) (ss : List Segment) (e : Errand) : Prop
  /-- Job `j` has not been booted. -/
  | waits {r : Reader} : (m.view j).job.boot = .fresh → (m.view j).job.life ≠ .finished →
      (m.view j).source? = some r → r.part ≠ .code → r.healthy = true → Holds r.rest ss →
      Follows m j ss e
  /-- One of the segments of job `j` runs. -/
  | runs (c : Course j) : c.segments = ss → m.Mirrors j e c → Follows m j ss e
  /-- Job `j` is over. -/
  | ends {fuel : Nat} {results : List (Outcome × List Word)} {cpu : Processor} :
      (m.view j).job.life = .finished → Solo.runAll j fuel .new ss = some (results, cpu) →
      (m.view j).job.segments = ss.length →
      (m.view j).job.outcome? = results.getLast?.map (·.1) →
      (∀ i result, results[i]? = some result → m.Wrote j (i + 1) (written result.2)) →
      Follows m j ss e

/-- Job `j` stays where it is or takes a step of its own, and enters no segment. -/
theorem Mirrors.move (h : m.Mirrors j e c) {v : View} (hview : m'.view j = v)
    (hboot : v.job.boot = (m.view j).job.boot) (hlife : v.job.life ≠ .finished)
    (hsegments : v.job.segments = (m.view j).job.segments)
    (himage : v.job.image = (m.view j).job.image) (hsource : v.source? = (m.view j).source?)
    (hwrote : ∀ s text, s ≤ (m.job j).segments → m.Wrote j s text → m'.Wrote j s text)
    (hstep : s = c.solo ∨ c.solo.step j = (none, s)) (hregs : v.job.registers = s.cpu.regs)
    (hleft : e'.left s.unread = e.left c.solo.unread)
    (hout : e'.out s.words = e.out c.solo.words) (hpends : e'.Pends m' j s) :
    ∃ c' : Course j, c'.segments = c.segments ∧ m'.Mirrors j e' c' := by
  subst hview
  have hcount := h.segments
  -- the files of the segments before are left alone
  have hfiles : ∀ i result, c.results[i]? = some result →
      m'.Wrote j (i + 1) (written result.2) := by
    intro i result hresult
    have hlt : i < c.results.length := (List.getElem?_eq_some_iff.1 hresult).1
    refine hwrote _ _ ?_ (h.files i result hresult)
    rw [← view_segments, hcount, ← c.length_results]
    omega
  have hfile : m'.Wrote j (c.before.length + 1) (written (e'.out s.words)) := by
    rw [hout]
    exact hwrote _ _ (by rw [← view_segments, hcount]) h.file
  obtain ⟨c', hsegments', hbefore, hresults, hsegment, hsolo, hafter⟩ :
      ∃ c' : Course j, c'.segments = c.segments ∧ c'.before = c.before ∧
        c'.results = c.results ∧ c'.segment = c.segment ∧ c'.solo = s ∧ c'.after = c.after := by
    rcases hstep with rfl | hstep
    · exact ⟨c, rfl, rfl, rfl, rfl, rfl, rfl⟩
    · exact ⟨c.step hstep, rfl, rfl, rfl, rfl, rfl, rfl⟩
  refine ⟨c', hsegments', hboot.trans h.booted, hlife, ?_, ?_, ?_, ?_, ?_, ?_, ?_⟩
  · rw [hsegments, hcount, hbefore]
  · rw [himage, h.image, hsegment]
  · rw [hregs, hsolo]
  · rw [hsource, hsolo, hafter, hleft]
    exact h.source
  · rw [hresults]
    exact hfiles
  · rw [hbefore, hsolo]
    exact hfile
  · rw [hsolo]
    exact hpends

/-- Job `j`, when it has entered a segment, has come as far as it has alone. -/
theorem mirrors_enter {cpu : Processor} {reader : Reader} (hsolo : c.solo = .enter cpu c.segment)
    (hboot : (m'.view j).job.boot = .booted) (hlife : (m'.view j).job.life = .runnable)
    (hsegments : (m'.view j).job.segments = c.before.length + 1)
    (himage : (m'.view j).job.image = c.segment.code.toArray)
    (hregs : (m'.view j).job.registers = cpu.regs.setPc 0)
    (hsource : (m'.view j).source? = some reader) (hpart : reader.part ≠ .code)
    (hhealthy : reader.healthy = true) (hholds : Holds reader.rest c.after)
    (hinput : List.Forall₂ (fun line w => line.input = .ok w) reader.unread
      (c.segment.input?.getD []))
    (hfiles : ∀ i result, c.results[i]? = some result → m'.Wrote j (i + 1) (written result.2))
    (hwrote : m'.Wrote j (c.before.length + 1) "")
    (hcalm : m'.Speaks j → m'.line.isIdle = true) : m'.Mirrors j .rest c := by
  refine ⟨hboot, by rw [hlife]; decide, hsegments, himage, ?_, ?_, hfiles, ?_, ?_⟩
  · rw [hregs, hsolo]
    rfl
  · rw [hsolo]
    exact ⟨reader, hsource, hpart, hhealthy, hholds, hinput⟩
  · rw [hsolo]
    exact hwrote
  · rw [hsolo]
    exact .of_calm hcalm rfl

/-- The output files of the first `n` segments of job `j` can be created. -/
def Creates (m : Machine) (j n : Nat) : Prop :=
  ∀ s, 1 ≤ s → s ≤ n → ∃ created, m.hardware.files.create (m.outputFile j s) = .ok created

/-- Whether output files can be created can be tried out with `create`. -/
theorem creates_of_isOk {n : Nat}
    (h : ∀ s < n, (m.hardware.files.create (m.outputFile j (s + 1))).isOk = true) :
    m.Creates j n := by
  intro s hs hle
  obtain ⟨s, rfl⟩ := Nat.exists_eq_add_of_le' hs
  have hok := h s hle
  cases hcreate : m.hardware.files.create (m.outputFile j (s + 1)) with
  | ok created => exact ⟨created, rfl⟩
  | error error =>
    rw [hcreate] at hok
    simp [Except.isOk, Except.toBool] at hok

theorem Creates.of_alike {n : Nat} (h : m.Creates j n) (hconfig : m'.config = m.config)
    (halike : m.hardware.files.Alike m'.hardware.files) : m'.Creates j n := by
  intro s hs hle
  obtain ⟨⟨files, loc⟩, hcreate⟩ := h s hs hle
  rw [outputFile_congr hconfig]
  obtain ⟨files', hcreate'⟩ := halike.places ⟨files, hcreate⟩
  exact ⟨(files', loc), hcreate'⟩

/-- If job `j` cannot load a segment although its output files can be created, it has none to
load. -/
theorem Barred.eq_nil {files : Files} {r : Reader} {ss : List Segment} {n : Nat}
    (h : m.Barred j files) (hcreates : m.Creates j n)
    (hn : (m.job j).segments + ss.length ≤ n) (halike : m.hardware.files.Alike files)
    (hsource : (m.view j).source? = some r) (hpart : r.part ≠ .code) (hhealthy : r.healthy = true)
    (hholds : Holds r.rest ss) (hsize : ∀ s ∈ ss, s.code.length ≤ imageLimit) : ss = [] := by
  cases ss with
  | nil => rfl
  | cons s ss =>
    obtain ⟨hend, reader, hnext, hhealthy'⟩ :=
      Reader.nextImage_of_holds hpart hholds (hsize s List.mem_cons_self)
    rw [List.length_cons] at hn
    obtain ⟨⟨created, loc⟩, hcreate⟩ :=
      hcreates ((m.job j).segments + 1) (Nat.le_add_left _ _) (by omega)
    obtain ⟨files', hcreate'⟩ := halike.places ⟨created, hcreate⟩
    exact absurd hcreate'
      (h r s.code reader (files', loc) hsource hhealthy hend hnext (hhealthy'.trans hhealthy))

/-- Job `j`, which has not been booted, follows its segments `ss` when the search for the next job
comes to it. -/
theorem Follows.of_waits {ss : List Segment} {r : Reader} (hdeed : m.Deed m' j .rest e')
    (hboot : (m.view j).job.boot = .fresh) (hlife : (m.view j).job.life ≠ .finished)
    (hsource : (m.view j).source? = some r) (hpart : r.part ≠ .code) (hhealthy : r.healthy = true)
    (hholds : Holds r.rest ss) (hsize : ∀ s ∈ ss, s.code.length ≤ imageLimit) (hne : ss ≠ [])
    (hcreates : m.Creates j ss.length) (hsegments : (m.view j).job.segments = 0)
    (hregs : (m.view j).job.registers = .zero) (hruns : m.runs j = false)
    (hcalm : m'.Speaks j → m'.line.isIdle = true) : m'.Follows j ss e' := by
  cases hdeed with
  | stays _ hview =>
    exact .waits (hview ▸ hboot) (hview ▸ hlife) (hview ▸ hsource) hpart hhealthy hholds
  | @boots r' reader image s _ _ _ hsame hnext hwrote hview =>
    obtain rfl : r = r' := hsame r hsource
    obtain ⟨segment, after, rfl, rfl, _, hpart', hhealthy', hholds', hinput⟩ :=
      Reader.holds_of_nextImage hpart hholds hnext
    have hfirst : (m.job j).segments = 0 := hsegments
    rw [hfirst] at hwrote
    refine .runs (.first j segment after) rfl (mirrors_enter (Course.solo_first j segment after)
      (by rw [hview]; rfl) (by rw [hview]; rfl) ?_ (by rw [hview]; rfl) ?_ (by rw [hview]; rfl)
      hpart' (hhealthy'.trans hhealthy) hholds' hinput ?_ hwrote hcalm)
    · rw [hview]
      exact congrArg (· + 1) hsegments
    · rw [hview]
      exact congrArg (fun regs => regs.setPc 0) hregs
    · intro i result hresult
      simp [Course.first] at hresult
  | drops _ _ _ hopens hbarred =>
    -- there is a first segment, and its output file can be created
    have hfirst : (m.job j).segments = 0 := hsegments
    exact absurd (hbarred.eq_nil hcreates (by omega) hopens.alike hsource hpart hhealthy hholds
      hsize) hne
  | steps _ hrun | rejects hrun | asks hrun => simp [hruns] at hrun
  | reloads hending | retires hending =>
    cases hending with
    | stops hrun | errs hrun => simp [hruns] at hrun

/-- While job `j` runs the processor has what its segment has alone. -/
theorem Mirrors.cpu (h : m.Mirrors j e c) (hsound : m.Sound) (hrun : m.runs j = true) :
    m.hardware.cpu.regs = c.solo.cpu.regs ∧ m.hardware.cpu.program = c.solo.cpu.program := by
  obtain ⟨hidle, hcurrent⟩ := runs_eq_true_iff.1 hrun
  refine ⟨?_, ?_⟩
  · rw [← h.registers, view_registers, regsOf, if_pos hrun]
  · rw [hsound.wired.program hidle, hcurrent, ← view_image, h.image, c.program]

/-- If a segment of job `j` ends with the outcome `o`, it ends so alone. -/
theorem Mirrors.ending (h : m.Mirrors j e c) (hsound : m.Sound) (hending : m.Ending j e o) :
    c.solo.step j = (some o, c.solo) := by
  have hpends := h.pends
  cases hending with
  | stops hrun hculprit hstops =>
    obtain ⟨hregs, hprogram⟩ := h.cpu hsound hrun
    rcases hstops with ⟨hclear, _, hend, rfl, _⟩ | ⟨htrap, rfl, rfl⟩
    · rw [Processor.atEnd_congr hregs hprogram] at hend
      exact Solo.step_atEnd (hpends.isIdle hclear) hend
    · have hspeaks : m.Speaks j := ⟨hrun, hculprit, fun side => by
        simpa [htrap] using side.completion_ne_halt.symm⟩
      have hline := hpends.eq_line hspeaks (TrapLine.isIdle_eq_false htrap)
      rw [hline, hregs]
      rw [hline] at htrap
      exact Solo.step_halt htrap
  | errs hrun hculprit htrap =>
    have hspeaks : m.Speaks j := ⟨hrun, hculprit, fun side => by
      simpa [htrap] using side.completion_ne_fatal.symm⟩
    have hline := hpends.eq_line hspeaks (TrapLine.isIdle_eq_false htrap)
    rw [hline] at htrap ⊢
    exact Solo.step_fatal htrap
  | misses =>
    obtain ⟨htrap, hdata, hregister, hunread⟩ := hpends
    exact Solo.step_getw_nil htrap (by rw [hdata, hregister]) hunread

/-- After the turn in which a segment of job `j` ends nothing of the job is on the line. -/
theorem Ending.calm (hending : m.Ending j e o) (hsound : m.Sound) (hlines : m.Lines m') :
    m'.Speaks j → m'.line.isIdle = true := by
  cases hending with
  | stops _ _ hstops =>
    rcases hstops with ⟨hclear, _, hend, _⟩ | ⟨htrap, _⟩
    · refine hlines.calm_of (fun _ _ => hend) fun _ hmisuses => ?_
      rw [hmisuses.1] at hclear
      exact absurd hclear (by decide)
    · exact hlines.calm_of_trap htrap fun side => side.request_ne_halt.symm
  | errs _ _ htrap => exact hlines.calm_of_trap htrap fun side => side.request_ne_fatal.symm
  | misses hculprit =>
    have htrap : m.line.trap? = some .fatal := by
      by_contra hother
      rw [hsound.culprit_eq_none hother] at hculprit
      simp at hculprit
    exact hlines.calm_of_trap htrap fun side => side.request_ne_fatal.symm

/-- Job `j` executes an instruction as it does alone. -/
theorem Mirrors.execute (h : m.Mirrors j .rest c) (hsound : m.Sound) (hlawful : m.isLawful = true)
    (hlines : m.Lines m') (hloads : ∀ i ∈ c.segment.code, i.loads = false)
    (hline : m.line.isIdle = true) (hrun : m.runs j = true) (hend : m.hardware.cpu.atEnd = false)
    (hcpu : m'.hardware.cpu = m.hardware.cpu.step.2) (hcontrol : m'.control = m.control) :
    c.solo.step j = (none, { c.solo with cpu := c.solo.cpu.step.2 }) ∧
      m.hardware.cpu.step.2.regs = c.solo.cpu.step.2.regs ∧ m'.Shows j c.solo.cpu.step.2.trap := by
  obtain ⟨hregs, hprogram⟩ := h.cpu hsound hrun
  have hclear : c.solo.cpu.trap.isIdle = true := h.pends.isIdle hline
  obtain ⟨hregs', htrap⟩ := Processor.step_congr hregs hprogram (by
    rw [hprogram, c.program]
    simpa using hloads)
  refine ⟨Solo.step_execute hclear ((Processor.atEnd_congr hregs hprogram).symm.trans hend),
    hregs', ?_⟩
  have hculprit := hsound.culprit_of_isIdle hline
  have hline' : m'.line = m.hardware.cpu.step.2.trap := congrArg Processor.trap hcpu
  rcases htrap with hsame | ⟨hsame, hsame'⟩
  · rw [← hsame, ← hline']
    refine ⟨fun hidle _ => hidle, fun _ => ⟨⟨?_, ?_, ?_⟩, rfl⟩⟩
    · exact (runs_congr hcontrol).trans hrun
    · exact (congrArg Control.culprit? hcontrol).trans hculprit
    · exact hlines.ne_completion hlawful
  · rw [hsame']
    refine .of_calm (fun _ => ?_) hclear
    rw [hline', hsame]
    exact hline

/-- What is no request of job `j` is an error alone, too. -/
theorem Mirrors.misuses (h : m.Mirrors j .rest c) (hsound : m.Sound) (hrun : m.runs j = true)
    (hmisuses : m.Misuses) : c.solo.step j = (none, { c.solo with cpu := c.solo.cpu.fail }) := by
  obtain ⟨hfatal, hcompletion⟩ := hmisuses.trap?_ne
  obtain ⟨hbusy, hcause⟩ := hmisuses
  obtain ⟨hregs, _⟩ := h.cpu hsound hrun
  have hspeaks : m.Speaks j := ⟨hrun, hsound.culprit_eq_none hfatal, hcompletion⟩
  have hline := Shows.eq_line h.pends hspeaks hbusy
  rw [hline] at hbusy hcause
  rcases hcause with hnone | ⟨side, hside, hregister⟩
  · exact Solo.step_unknown hbusy hnone
  · rw [hregs] at hregister
    exact Solo.step_misuse hside (by cases side <;> simp [Side.request]) hregister

/-- A request of job `j` is pending alone, too. -/
theorem Mirrors.asks (h : m.Mirrors j .rest c) (hsound : m.Sound) (hrun : m.runs j = true)
    {side : Side} {value : Word} (htrap : m.line.trap? = some side.request)
    (hregister : m.hardware.cpu.regs.get? m.line.data = some value) :
    (side.errand m.line.data value).Pends m' j c.solo := by
  obtain ⟨hregs, _⟩ := h.cpu hsound hrun
  have hspeaks : m.Speaks j := by
    exact ⟨hrun, hsound.culprit_eq_none (by simp [htrap]), by simp [htrap]⟩
  have hline := Shows.eq_line h.pends hspeaks (TrapLine.isIdle_eq_false htrap)
  rw [hregs] at hregister
  cases side with
  | input =>
    refine ⟨hline ▸ htrap, hline ▸ rfl, ?_⟩
    rw [hregister]
    rfl
  | output =>
    refine ⟨hline ▸ htrap, ?_⟩
    rw [← hline]
    exact hregister

/-- If a segment of job `j` ends, the job has nothing in hand that has been written already. -/
theorem Ending.out (hending : m.Ending j e o) (words : List Word) : e.out words = words := by
  cases hending <;> rfl

/-- The output files of the segments of job `j` that have ended, the last one included, hold what
these have written alone. -/
theorem Mirrors.results (h : m.Mirrors j e c) (hout : ∀ words, e.out words = words)
    (hwrote : ∀ s text, s ≤ (m.job j).segments → m.Wrote j s text → m'.Wrote j s text)
    (i : Nat) (result : Outcome × List Word)
    (hresult : (c.results ++ [(o, c.solo.words)])[i]? = some result) :
    m'.Wrote j (i + 1) (written result.2) := by
  have hcount : (m.job j).segments = c.before.length + 1 := h.segments
  have hlength := c.length_results
  rcases Nat.lt_or_ge i c.results.length with hlt | hge
  · rw [List.getElem?_append_left hlt] at hresult
    exact hwrote _ _ (by omega) (h.files i result hresult)
  · rw [List.getElem?_append_right hge, List.getElem?_singleton] at hresult
    split at hresult
    · obtain rfl : i = c.before.length := by omega
      obtain rfl := Option.some.inj hresult
      refine hwrote _ _ hcount.ge ?_
      rw [← hout c.solo.words]
      exact h.file
    · simp at hresult

/-- The segment of job `j` ends here and there, and so does the loading of the next one. -/
theorem Mirrors.reloads {r reader : Reader} {image : List Instruction} {s : Sink}
    (h : m.Mirrors j e c) (hsound : m.Sound) (hlines : m.Lines m')
    (hwrote : ∀ s text, s ≤ (m.job j).segments → m.Wrote j s text → m'.Wrote j s text)
    (hending : m.Ending j e o) (hsource : m.hardware.source? j = some r)
    (hnext : r.nextImage = (.ok (some image), reader))
    (hfresh : m'.Wrote j ((m.job j).segments + 1) "")
    (hview : m'.view j = ((m.view j).withOutcome o).entered j reader image s) :
    m'.Follows j c.segments .rest := by
  have hend := h.ending hsound hending
  obtain ⟨r', hsource', hpart, hhealthy, hholds, _⟩ := h.source
  obtain rfl : r = r' := Option.some.inj (hsource.symm.trans hsource')
  obtain ⟨segment, after, hafter, rfl, _, hpart', hhealthy', hholds', hinput'⟩ :=
    Reader.holds_of_nextImage hpart hholds hnext
  have hcount : (m.job j).segments = c.before.length + 1 := h.segments
  rw [← c.segments_next hend hafter]
  refine .runs _ rfl (mirrors_enter rfl (by rw [hview]; exact h.booted) (by rw [hview]; rfl) ?_
    (by rw [hview]; rfl) ?_ (by rw [hview]; rfl) hpart' (hhealthy'.trans hhealthy) hholds' hinput'
    (h.results hending.out hwrote) ?_ (hending.calm hsound hlines))
  · rw [hview, Course.next, List.length_append]
    exact congrArg (· + 1) hcount
  · rw [hview]
    exact congrArg (fun regs => regs.setPc 0) h.registers
  · rw [Course.next, List.length_append]
    exact hcount ▸ hfresh

/-- If job `j` is retired, it has run all its segments. -/
theorem Mirrors.retires (h : m.Mirrors j e c) (hsound : m.Sound)
    (hwrote : ∀ s text, s ≤ (m.job j).segments → m.Wrote j s text → m'.Wrote j s text)
    (hcreates : m.Creates j c.segments.length)
    (hsize : ∀ s ∈ c.segments, s.code.length ≤ imageLimit) (hending : m.Ending j e o)
    (hbarred : m.Barred j m.hardware.files)
    (hview : m'.view j = ((m.view j).withOutcome o).dismissed) :
    m'.Follows j c.segments .rest := by
  have hend := h.ending hsound hending
  obtain ⟨r, hsource, hpart, hhealthy, hholds, _⟩ := h.source
  have hcount : (m.job j).segments = c.before.length + 1 := h.segments
  have hlength : c.segments.length = c.before.length + (c.after.length + 1) := by
    rw [Course.segments, List.length_append, List.length_cons]
  -- the job is over since no segment is left, and not since a file could not be created
  have hlast : c.after = [] := hbarred.eq_nil hcreates (by omega) (.refl _) hsource hpart hhealthy
    hholds fun s hs => hsize s (by simp [Course.segments, hs])
  obtain ⟨fuel, hrun⟩ := c.runAll hend hlast
  refine .ends (by rw [hview]; rfl) hrun ?_ ?_ (h.results hending.out hwrote)
  · rw [hview, Course.segments, hlast, List.length_append]
    exact h.segments
  · rw [hview, List.getLast?_concat]
    rfl

/-- A turn takes job `j`, a segment of which runs, to what it comes to alone. -/
theorem Mirrors.turn {p : Progress} (h : m.Mirrors j e c) (hsound : m.Sound)
    (hlawful : m.isLawful = true) (hturned : m.Turned p m') (hon : m.On j e) (hon' : m'.On j e')
    (hdeed : m.Deed m' j e e') (hcreates : m.Creates j c.segments.length)
    (hsize : ∀ s ∈ c.segments, s.code.length ≤ imageLimit)
    (hloads : ∀ s ∈ c.segments, ∀ i ∈ s.code, i.loads = false) : m'.Follows j c.segments e' := by
  have hlines := hturned.lines
  have hwrote : ∀ s text, s ≤ (m.job j).segments → m.Wrote j s text → m'.Wrote j s text :=
    fun s text hs => hturned.opens.wrote hturned.config hs
  -- the job stays in its segment
  have hstays : (∃ c' : Course j, c'.segments = c.segments ∧ m'.Mirrors j e' c') →
      m'.Follows j c.segments e' := fun ⟨c', hsegments, hmirrors⟩ => .runs c' hsegments hmirrors
  have hrunnable : e ≠ .rest → (if (m.view j).job.life = .waiting then Life.runnable else
      (m.view j).job.life) ≠ .finished := by
    intro hrest
    rw [if_pos (hon.waits.2 hrest)]
    decide
  cases hdeed with
  | stays hsubject hview =>
    refine hstays
      (h.move hview rfl h.unfinished rfl rfl rfl hwrote (.inl rfl) h.registers rfl rfl ?_)
    have hpends := h.pends
    cases e with
    -- what a running job has on the line would have made the turn one about it
    | rest =>
      refine .of_calm (hlines.calm_of_subject hsound hsubject) ?_
      by_contra hidle
      exact hsubject (hpends.pending (by simpa using hidle)).1.subject?
    | reads r | got r w | missed r | writes w | wrote w => exact hpends
  | boots hboot | drops hboot =>
    have hbooted := h.booted
    rw [view_boot, hboot] at hbooted
    simp at hbooted
  | steps hline hrun hend hcpu hcontrol hview =>
    obtain ⟨hstep, hregs, hshows⟩ := h.execute hsound hlawful hlines
      (hloads c.segment (by simp [Course.segments])) hline hrun hend hcpu hcontrol
    exact hstays
      (h.move hview rfl h.unfinished rfl rfl rfl hwrote (.inr hstep) hregs rfl rfl hshows)
  | rejects hrun hmisuses hline hcontrol hview =>
    -- alone the error is on the line at once, and here it is after this turn
    have hstep := h.misuses hsound hrun hmisuses
    have hculprit := hsound.culprit_eq_none hmisuses.trap?_ne.1
    refine hstays (h.move hview rfl h.unfinished rfl rfl rfl hwrote (.inr hstep) h.registers rfl rfl
      ⟨fun hidle => ?_, fun _ => ⟨⟨?_, ?_, fun side => ?_⟩, hline⟩⟩)
    · simp [Processor.fail] at hidle
    · exact (runs_congr hcontrol).trans hrun
    · exact (congrArg Control.culprit? hcontrol).trans hculprit
    · rw [hline, TrapLine.trap?_raise]
      simpa using side.completion_ne_fatal.symm
  | reloads hending hsource hnext hfresh hview =>
    exact h.reloads hsound hlines hwrote hending hsource hnext hfresh hview
  | retires hending hbarred hview =>
    exact h.retires hsound hwrote hcreates hsize hending hbarred hview
  -- alone the request is served when the machine has served the completion
  | @asks side value hrun htrap hregister hview =>
    obtain ⟨_, hsource, hjob, _⟩ := hon.toOn.asks (j := j) side m.line.data value
    refine hstays (h.move hview (by rw [hjob]) ?_ (by rw [hjob]) (by rw [hjob]) hsource hwrote
      (.inl rfl) ?_ ?_ ?_ (h.asks hsound hrun htrap hregister))
    · rw [hjob]
      simp
    · rw [hjob]
      exact h.registers
    · cases side <;> rfl
    · cases side <;> rfl
  | fails _ _ _ hview =>
    exact hstays (h.move hview rfl h.unfinished rfl rfl rfl hwrote (.inl rfl) h.registers rfl rfl
      h.pends)
  | @fetches r w hview =>
    obtain ⟨htrap, hdata, hregister, hunread⟩ := h.pends
    obtain ⟨unread, hcons⟩ := List.head?_eq_some_iff.1 hunread
    have hstep := Solo.step_getw (j := j) htrap (by rw [hdata, hregister]) hcons
    have htarget : (m.view j).job.target? = some r := hon.target
    have hword : (m.view j).input.trap.data = w := hon.held
    refine hstays (h.move hview rfl ?_ rfl rfl rfl hwrote (.inr hstep) ?_ ?_ rfl ?_)
    · exact hrunnable (by simp)
    · simp only [View.collected, htarget, hword, h.registers, hdata]
    · simp only [Errand.left, hcons, List.tail_cons]
    · exact .of_calm (hlines.calm_of_trap hon.signalled.1 fun side =>
        (side.request_ne_completion .input).symm) rfl
  | @delivers w hview =>
    obtain ⟨htrap, hregister⟩ := h.pends
    have hstep := Solo.step_putw (j := j) htrap hregister
    refine hstays (h.move hview rfl ?_ rfl rfl rfl hwrote (.inr hstep) h.registers rfl rfl ?_)
    · exact hrunnable (by simp)
    · exact .of_calm (hlines.calm_of_trap hon.signalled.1 fun side =>
        (side.request_ne_completion .output).symm) rfl

/-- A tick of a device takes job `j` to what it has come to alone. -/
theorem Mirrors.chore (h : m.Mirrors j e c) (hj : j < m.jobs.size) (hchores : m.Chores m')
    (hchore : m.Chore m' j e e') : m'.Mirrors j e' c := by
  have hjob := hchores.job j hj
  have hcount : (m.job j).segments = c.before.length + 1 := h.segments
  -- the source, the files, the file of the segment that runs, and what is pending
  have hrest : (∃ r, (m'.view j).source? = some r ∧ r.part ≠ .code ∧ r.healthy = true ∧
      Holds r.rest c.after ∧
      List.Forall₂ (fun line w => line.input = .ok w) r.unread (e'.left c.solo.unread)) ∧
      (∀ i result, c.results[i]? = some result → m'.Wrote j (i + 1) (written result.2)) ∧
      m'.Wrote j (c.before.length + 1) (written (e'.out c.solo.words)) ∧ e'.Pends m' j c.solo := by
    cases hchore with
    | keeps hsource hwrote =>
      refine ⟨?_, fun i result hresult => hwrote _ _ (h.files i result hresult), hwrote _ _ h.file,
        ?_⟩
      · rw [view_source?, hsource]
        exact h.source
      · have hpends := h.pends
        cases e with
        | rest => exact Shows.of_chores hpends hchores
        | reads r | got r w | missed r | writes w | wrote w => exact hpends
    | @reads register word hread hwrote =>
      obtain ⟨r, hsource, hpart, hhealthy, hholds, hinput⟩ := h.source
      obtain ⟨r', hnext, hpart', hahead, hhealthy', hinput', hword⟩ :=
        Reader.readWord_words hpart hinput
      rw [view_source?] at hsource
      rw [← hsource, hread] at hnext hword
      obtain ⟨htrap, hdata, hregister⟩ := h.pends
      refine ⟨⟨r', hnext, hpart', hhealthy'.trans hhealthy, hholds.congr hahead, ?_⟩,
        fun i result hresult => hwrote _ _ (h.files i result hresult), ?_, ?_⟩
      · cases word with
        | ok w => exact hinput'
        -- nothing has been read, since nothing was left
        | error error =>
          have hnil : c.solo.unread = [] := List.head?_eq_none_iff.1 hword.symm
          change List.Forall₂ _ r'.unread c.solo.unread.tail at hinput'
          change List.Forall₂ _ r'.unread c.solo.unread
          rw [hnil] at hinput' ⊢
          exact hinput'
      · cases word <;> exact hwrote _ _ h.file
      · cases word with
        | ok w => exact ⟨htrap, hdata, hregister, hword.symm⟩
        | error error => exact ⟨htrap, hdata, hregister, List.head?_eq_none_iff.1 hword.symm⟩
    | @writes w hsource hwrote =>
      refine ⟨?_, fun i result hresult => ?_, ?_, h.pends⟩
      · rw [view_source?, hsource]
        exact h.source
      · have hlt : i < c.results.length := (List.getElem?_eq_some_iff.1 hresult).1
        have hlength := c.length_results
        have hfile := hwrote _ _ (h.files i result hresult)
        rwa [if_neg (by omega)] at hfile
      · have hfile := hwrote _ _ h.file
        rw [if_pos hcount.symm] at hfile
        rw [Errand.out, written_append]
        exact hfile
  obtain ⟨hsource, hfiles, hfile, hpends⟩ := hrest
  refine ⟨?_, ?_, ?_, ?_, ?_, hsource, hfiles, hfile, hpends⟩
  · rw [hjob]
    exact h.booted
  · rw [hjob]
    exact h.unfinished
  · rw [hjob]
    exact h.segments
  · rw [hjob]
    exact h.image
  · rw [hjob]
    exact h.registers

/-- A turn takes job `j` to what it comes to alone with its segments `ss`. -/
theorem Follows.turn {p : Progress} {ss : List Segment} (h : m.Follows j ss e) (hsound : m.Sound)
    (hj : j < m.jobs.size) (hlawful : m.isLawful = true) (hturned : m.Turned p m')
    (hon : m.On j e) (hon' : m'.On j e') (hdeed : m.Deed m' j e e')
    (hcreates : m.Creates j ss.length) (hne : ss ≠ [])
    (hsize : ∀ s ∈ ss, s.code.length ≤ imageLimit)
    (hloads : ∀ s ∈ ss, ∀ i ∈ s.code, i.loads = false) : m'.Follows j ss e' := by
  cases h with
  | @waits r hboot hlife hsource hpart hhealthy hholds =>
    have hruns : m.runs j = false := by
      rw [Bool.eq_false_iff]
      intro hrun
      rw [view_boot, (hsound.of_runs hrun).2] at hboot
      exact absurd hboot (by decide)
    obtain rfl : e = .rest := by
      by_contra hrest
      rw [view_boot, (hon.opened hsound hj hrest).1] at hboot
      exact absurd hboot (by decide)
    have huntouched := (hsound.job j hj).fresh hboot hlife
    refine Follows.of_waits hdeed hboot hlife hsource hpart hhealthy hholds hsize hne hcreates
      huntouched.segments huntouched.registers hruns ?_
    exact hturned.lines.calm_of (fun hrun => by simp [hruns] at hrun)
      fun hrun => by simp [hruns] at hrun
  | runs c hsegments hmirrors =>
    subst hsegments
    exact hmirrors.turn hsound hlawful hturned hon hon' hdeed hcreates hsize hloads
  | ends hlife hrun hsegments houtcome hfiles =>
    obtain rfl : e = .rest := hon.eq_rest (by rw [hlife]; decide)
    -- a job that is over does not run
    have hruns : ¬ m.runs j = true := by
      intro hruns
      rw [view_life, (hsound.of_runs hruns).1] at hlife
      exact absurd hlife (by decide)
    cases hdeed with
    | stays _ hview =>
      refine .ends (hview ▸ hlife) hrun (hview ▸ hsegments) (hview ▸ houtcome)
        fun i result hresult => hturned.opens.wrote hturned.config ?_ (hfiles i result hresult)
      have hlt : i < _ := (List.getElem?_eq_some_iff.1 hresult).1
      rw [Solo.length_runAll hrun] at hlt
      rw [← view_segments, hsegments]
      exact hlt
    | boots _ hrunnable | drops _ hrunnable =>
      rw [view_life, hrunnable] at hlife
      exact absurd hlife (by decide)
    | steps _ hrun | rejects hrun | asks hrun => exact absurd hrun hruns
    | reloads hending | retires hending =>
      cases hending with
      | stops hrun | errs hrun => exact absurd hrun hruns

/-- A tick of a device takes job `j` to what it comes to alone with its segments `ss`. -/
theorem Follows.chore {ss : List Segment} :
    KeptByChores j fun m e => m.Creates j ss.length ∧ m.Follows j ss e := by
  intro m m' e e' hj hchores hon _ hchore hopened ⟨hcreates, h⟩
  have hjob := hchores.job j hj
  refine ⟨hcreates.of_alike (congrArg Control.config hchores.control) hchores.alike, ?_⟩
  cases h with
  | waits hboot hlife hsource hpart hhealthy hholds =>
    obtain rfl : e = .rest := by
      by_contra hrest
      rw [view_boot, (hopened hrest).1] at hboot
      exact absurd hboot (by decide)
    cases hchore with
    | keeps hsame =>
      exact .waits (hjob ▸ hboot) (hjob ▸ hlife) (hsame.trans hsource) hpart hhealthy hholds
  | runs c hsegments hmirrors =>
    exact .runs c hsegments (hmirrors.chore hj hchores hchore)
  | ends hlife hrun hsegments houtcome hfiles =>
    obtain rfl : e = .rest := hon.eq_rest (by rw [hlife]; decide)
    cases hchore with
    | keeps _ hwrote =>
      exact .ends (hjob ▸ hlife) hrun (hjob ▸ hsegments) (hjob ▸ houtcome)
        fun i result hresult => hwrote _ _ (hfiles i result hresult)

section Launch

variable {jobs : List (Job × Option Reader)} {config : Config} {files : Files} {journal : Journal}
  {first : Machine} {p : Progress} {past : List Machine}

/-- After the start job `j` follows the segments `ss` of its text. -/
theorem Launches.follows (hlaunch : Launches jobs config files journal first)
    (hregular : (new jobs config files journal).Regular) (hj : j < jobs.length) {r : Reader}
    {ss : List Segment} (hsource : jobs[j].2 = some r) (hpart : r.part ≠ .code)
    (hhealthy : r.healthy = true) (hholds : Holds r.rest ss) (hne : ss ≠ [])
    (hsize : ∀ s ∈ ss, s.code.length ≤ imageLimit)
    (hcreates : (new jobs config files journal).Creates j ss.length) :
    first.Follows j ss .rest := by
  obtain ⟨index, origin, path?, hview⟩ := exists_view_new config files journal hlaunch.1 hj
  obtain ⟨hdeed, _⟩ := hlaunch.deed hregular hj
  refine Follows.of_waits hdeed (r := r) ?_ ?_ ?_ hpart hhealthy hholds hsize hne hcreates ?_ ?_ rfl
    fun _ => hlaunch.hands.settles.line
  · rw [hview]
    rfl
  · rw [hview]
    simp [Job.new]
  · rw [hview, hsource]
  · rw [hview]
    rfl
  · rw [hview]
    rfl

/-- Jobs that run at the same time run as they would alone. Let the texts of all `jobs` be at hand
and leave the completions to the devices, and let job `j` have a text of the segments `ss` that do
not load from data memory and whose output files can be created as files. When the job is over in
`m`, all its segments have been loaded, its outcome is that of the last one when `Solo.runAll` runs
the segments alone one after the other, and the output file of each segment holds what the segment
writes then. (The word that names a device has room for its number if there are fewer than `2 ^ 30`
jobs.) -/
theorem refines (hlaunch : Launches jobs config files journal first)
    (hfew : 2 * jobs.length < 2 ^ 31) (hregular : (new jobs config files journal).Regular)
    (htexts : ∀ entry ∈ jobs, ∃ origin text, entry.2 = some (.ofText origin text) ∧
      (Reader.ofText origin text).isLawful = true)
    (hj : j < jobs.length) {r : Reader} {ss : List Segment} (hsource : jobs[j].2 = some r)
    (hsegments : r.segments.1 = .ok ss) (hne : ss ≠ [])
    (hsize : ∀ s ∈ ss, s.code.length ≤ imageLimit)
    (hloads : ∀ s ∈ ss, ∀ i ∈ s.code, i.loads = false)
    (hcreates : (new jobs config files journal).Creates j ss.length) (hrun : Run first p past m)
    (hover : (m.job j).life = .finished) :
    ∃ fuel results cpu, Solo.runAll j fuel .new ss = some (results, cpu) ∧
      results.length = ss.length ∧ (m.job j).segments = ss.length ∧
      (m.job j).outcome? = results.getLast?.map (·.1) ∧
      ∀ k result, results[k]? = some result →
        m.hardware.files.read (m.outputFile j (k + 1)) = .ok (written result.2) := by
  obtain ⟨origin, text, htext, _⟩ := htexts jobs[j] (List.getElem_mem hj)
  obtain rfl : r = .ofText origin text := Option.some.inj (hsource.symm.trans htext)
  have hpart : (Reader.ofText origin text).part ≠ .code := by simp [Reader.ofText]
  have hholds : Holds (Reader.ofText origin text).rest ss :=
    Reader.holds_of_segments hpart (Prod.ext hsegments rfl)
  have hfirst := hlaunch.follows hregular hj hsource hpart rfl hholds hne hsize hcreates
  have hsettles := hlaunch.hands.settles
  have hlawful := hrun.lawful hlaunch hregular hfew htexts
  -- `Follows` is kept by turns and by the ticks of devices, so it holds at the end
  obtain ⟨e, hon, _, hfollows⟩ := hrun.keeps hlaunch hregular hfew hj
    (P := fun m e => m.Creates j ss.length ∧ m.Follows j ss e)
    ⟨hcreates.of_alike hsettles.config hsettles.opens.alike, hfirst⟩
    (fun hsound hj hlawful hturned hon hon' hdeed h =>
      ⟨h.1.of_alike hturned.config hturned.opens.alike,
        h.2.turn hsound hj hlawful hturned hon hon' hdeed h.1 hne hsize hloads⟩)
    Follows.chore hlawful
  cases hfollows with
  | waits _ hlife => exact absurd hover hlife
  | runs c _ hmirrors => exact absurd hover hmirrors.unfinished
  | ends _ hresults hcount houtcome hfiles =>
    exact ⟨_, _, _, hresults, Solo.length_runAll hresults, hcount, houtcome,
      fun k result hresult => (hfiles k result hresult).read⟩

/-- After 27 ticks the first of two jobs that read a word and write it is over, as it would be
alone. -/
theorem refines_echo :
    ((tickUpTo 27 echoFirst).2.job 0).life = .finished ∧
      ∃ fuel results cpu,
        Solo.runAll 0 fuel .new [⟨"first", [⟨.trap, 2, 1, 0⟩, ⟨.trap, 3, 1, 0⟩], some [7]⟩] =
          some (results, cpu) ∧ results.length = 1 ∧
        ((tickUpTo 27 echoFirst).2.job 0).outcome? = results.getLast?.map (·.1) ∧
        ∀ k result, results[k]? = some result →
          (tickUpTo 27 echoFirst).2.hardware.files.read
            ((tickUpTo 27 echoFirst).2.outputFile 0 (k + 1)) = .ok (written result.2) := by
  obtain ⟨past, hrun, _⟩ := run_of_tickUpTo (m := echoFirst) (n := 27) (by decide +kernel)
  have hregular : (new echoJobs .standard .empty (.new none)).Regular :=
    regular_of_entries fun pair hpair => by simp [new, Hardware.new, Files.empty] at hpair
  have htexts : ∀ entry ∈ echoJobs, ∃ origin text, entry.2 = some (.ofText origin text) ∧
      (Reader.ofText origin text).isLawful = true := by
    intro entry hentry
    simp only [echoJobs, List.mem_cons, List.not_mem_nil, or_false] at hentry
    rcases hentry with rfl | rfl
    · exact ⟨_, _, rfl, by decide +kernel⟩
    · exact ⟨_, _, rfl, by decide +kernel⟩
  have hcreates : (new echoJobs .standard .empty (.new none)).Creates 0 1 :=
    creates_of_isOk (by decide +kernel)
  have hsegments : (Reader.ofText "first" "$JOB first\nf 2 1\nf 3 1\n$RUN\n7\n$END\n").segments.1 =
      .ok [⟨"first", [⟨.trap, 2, 1, 0⟩, ⟨.trap, 3, 1, 0⟩], some [7]⟩] := by rfl
  -- the two jobs share the processor for 27 ticks
  have hover : ((tickUpTo 27 echoFirst).2.job 0).life = .finished := by decide +kernel
  obtain ⟨fuel, results, cpu, halone, hlength, _, houtcome, hfiles⟩ :=
    refines launches_echo (by decide) hregular htexts (j := 0) (by decide) rfl hsegments (by simp)
      (by decide) (by decide) hcreates hrun hover
  exact ⟨hover, fuel, results, cpu, halone, hlength, houtcome, hfiles⟩

end Launch

end Machine

end BatchMachine
