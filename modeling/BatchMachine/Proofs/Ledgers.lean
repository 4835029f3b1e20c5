import BatchMachine.Proofs.Transfers

/-!
# Ledgers of input and output

What a run has asked for can be told from its past: the words that a job has asked to write in a
segment, and how often it has asked to read one. Between ticks the file of a segment holds these
words, but for the last one while the job waits for it to be written, and the job has been given as
many words of the segment's input section as it has asked for, one after the other.

* `Machine.asks?`: what a job asks for.
* `Machine.puts`, `Machine.gets`: what a job has asked for in a segment.
* `Machine.inputLines`: the input section of a segment.
* `Machine.Ledger`: what has been asked for and what has been done agree.
* `Machine.Ledger.tick`, `Machine.Run.ledger`: so it is between the ticks of every lawful run.
-/

namespace BatchMachine

open JobText

/-- At most one element of a list comes first among those that do not have the property `P`. -/
theorem List.eq_of_append_cons {α : Type} {P : α → Prop} {l₁ l₂ r₁ r₂ : List α} {a b : α}
    (h : l₁ ++ a :: r₁ = l₂ ++ b :: r₂) (h₁ : ∀ x ∈ l₁, P x) (h₂ : ∀ x ∈ l₂, P x) (ha : ¬ P a)
    (hb : ¬ P b) : l₁ = l₂ ∧ a = b ∧ r₁ = r₂ := by
  induction l₁ generalizing l₂ with
  | nil =>
    cases l₂ with
    | nil => simpa using h
    | cons y l₂ =>
      obtain ⟨rfl, _⟩ := List.cons.inj h
      exact absurd (h₂ a List.mem_cons_self) ha
  | cons x l₁ ih =>
    cases l₂ with
    | nil =>
      obtain ⟨rfl, _⟩ := List.cons.inj h
      exact absurd (h₁ x List.mem_cons_self) hb
    | cons y l₂ =>
      obtain ⟨rfl, htail⟩ := List.cons.inj h
      obtain ⟨rfl, hab, hr⟩ := ih htail (fun z hz => h₁ z (List.mem_cons_of_mem _ hz))
        fun z hz => h₂ z (List.mem_cons_of_mem _ hz)
      exact ⟨rfl, hab, hr⟩

namespace Machine

variable {m m₁ m' x : Machine} {past : List Machine} {j k s : Nat} {e e' : Errand}
  {lines : List Line}

/-- The word in the register that job `j` names, if the next thing that happens in `m` is that the
job asks for a transfer on `side`. -/
def asks? (m : Machine) (j : Nat) (side : Side) : Option Word :=
  if m.runs j ∧ m.line.trap? = some side.request then m.hardware.cpu.regs.get? m.line.data
  else none

/-- The words that job `j` has asked to write in its segment `s`, the first one first. -/
def puts (j s : Nat) (past : List Machine) : List Word :=
  past.reverse.filterMap fun x => if (x.job j).segments = s then x.asks? j .output else none

/-- How many words job `j` has asked to read in its segment `s`. -/
def gets (j s : Nat) (past : List Machine) : Nat :=
  past.countP fun x => (x.job j).segments = s ∧ (x.asks? j .input).isSome

/-- The lines of the input section of segment `s` of job `j`, as they are when the segment has been
loaded. `run` has the newest machine first. -/
def inputLines (j s : Nat) (run : List Machine) : List Line :=
  match run.reverse.find? fun x => (x.job j).segments = s with
  | some x => (x.hardware.source? j).elim [] Reader.unread
  | none => []

/-! ## What a run has asked for -/

theorem puts_cons (x : Machine) (past : List Machine) : puts j s (x :: past) =
    puts j s past ++ (if (x.job j).segments = s then x.asks? j .output else none).toList := by
  unfold puts
  rw [List.reverse_cons, List.filterMap_append]
  congr 1

theorem gets_cons (x : Machine) (past : List Machine) : gets j s (x :: past) =
    gets j s past + if (x.job j).segments = s ∧ (x.asks? j .input).isSome then 1 else 0 := by
  simp [gets, List.countP_cons]

/-- Nothing has been asked for in a segment `s` that has not been loaded yet. -/
theorem puts_eq_nil (h : ∀ x ∈ past, (x.job j).segments ≠ s) : puts j s past = [] := by
  unfold puts
  rw [List.filterMap_eq_nil_iff]
  intro x hx
  rw [if_neg (h x (List.mem_reverse.1 hx))]

theorem gets_eq_zero (h : ∀ x ∈ past, (x.job j).segments ≠ s) : gets j s past = 0 := by
  unfold gets
  rw [List.countP_eq_zero]
  intro x hx
  simp [h x hx]

/-- The machines `mid`, in which job `j` asks for nothing, do not count. -/
theorem gets_append {mid before : List Machine} {a : Machine}
    (hmid : ∀ x ∈ mid, x.asks? j .input = none) (hsegment : (a.job j).segments = s)
    (hasks : (a.asks? j .input).isSome = true) :
    gets j s (mid ++ a :: before) = gets j s before + 1 := by
  induction mid with
  | nil => simp [gets_cons, hsegment, hasks]
  | cons x mid ih =>
    rw [List.cons_append, gets_cons, hmid x List.mem_cons_self,
      ih fun y hy => hmid y (List.mem_cons_of_mem _ hy)]
    simp

/-- The input section of segment `s` is known once the segment has been loaded. -/
theorem inputLines_cons (hloaded : ∃ y ∈ past, (y.job j).segments = s) :
    inputLines j s (x :: past) = inputLines j s past := by
  obtain ⟨y, hy, hsegment⟩ := hloaded
  unfold inputLines
  rw [List.reverse_cons, List.find?_append]
  cases hfind : past.reverse.find? fun x => (x.job j).segments = s with
  | some z => rfl
  | none =>
    rw [List.find?_eq_none] at hfind
    exact absurd hsegment (by simpa using hfind y (List.mem_reverse.2 hy))

theorem inputLines_append {mid : List Machine} (hloaded : ∃ y ∈ past, (y.job j).segments = s) :
    inputLines j s (mid ++ past) = inputLines j s past := by
  induction mid with
  | nil => rfl
  | cons x mid ih =>
    obtain ⟨y, hy, hsegment⟩ := hloaded
    rw [List.cons_append, inputLines_cons ⟨y, List.mem_append_right mid hy, hsegment⟩, ih]

theorem inputLines_new (hnew : ∀ y ∈ past, (y.job j).segments ≠ s)
    (hsegment : (x.job j).segments = s) {r : Reader} (hsource : x.hardware.source? j = some r) :
    inputLines j s (x :: past) = r.unread := by
  have hfind : past.reverse.find? (fun x => (x.job j).segments = s) = none := by
    rw [List.find?_eq_none]
    intro y hy
    simpa using hnew y (List.mem_reverse.1 hy)
  unfold inputLines
  rw [List.reverse_cons, List.find?_append, hfind]
  simp [hsegment, hsource]

/-- Only a job `j` that runs asks for something. -/
theorem runs_of_asks? {side : Side} (h : (m.asks? j side).isSome = true) :
    m.runs j = true ∧ m.line.trap? = some side.request := by
  unfold asks? at h
  split at h
  · assumption
  · simp at h

theorem Resembles.asks? (h : m.Resembles m') {side : Side} : m'.asks? j side = m.asks? j side := by
  unfold Machine.asks?
  rw [h.line, h.cpu, runs_congr h.control]

theorem Resembles.segments (h : m.Resembles m') (hj : j < m.jobs.size) :
    (m'.job j).segments = (m.job j).segments := by
  rw [← view_segments, h.view j hj, view_segments]

/-- In a turn from `m` to `m'` job `j` asks for a transfer, or for nothing. -/
theorem Deed.asks?_cases (hdeed : m.Deed m' j e e') (hsound : m.Sound) (hon : m.On j e) :
    (∀ side, m.asks? j side = none) ∨
      ∃ (side : Side) (value : Word), e = .rest ∧ e' = side.errand m.line.data value ∧
        m.runs j = true ∧ m.line.trap? = some side.request ∧
        m.hardware.cpu.regs.get? m.line.data = some value ∧
        m'.view j = (m.view j).asks j side m.line.data value := by
  refine or_iff_not_imp_right.2 fun hasks side => ?_
  rw [Option.eq_none_iff_forall_ne_some]
  intro value hvalue
  have hsome : (m.asks? j side).isSome = true := by simp [hvalue]
  obtain ⟨hrun, htrap⟩ := runs_of_asks? hsome
  have hget : m.hardware.cpu.regs.get? m.line.data = some value := by
    rwa [asks?, if_pos ⟨hrun, htrap⟩] at hvalue
  have hrest := hon.rest_of_runs hsound hrun
  -- a job that asks for something is not at the end of its segment
  have hending : ∀ {o : Outcome}, ¬ m.Ending j e o := by
    intro o hending
    cases hending with
    | stops _ _ hstops =>
      rcases hstops with ⟨hclear, _⟩ | ⟨hhalt, _⟩
      · exact absurd hclear (TrapLine.not_isIdle htrap)
      · rw [hhalt, Option.some.injEq] at htrap
        exact absurd htrap.symm side.request_ne_halt
    | errs _ _ hfatal =>
      rw [hfatal, Option.some.injEq] at htrap
      exact absurd htrap.symm side.request_ne_fatal
    | misses => simp at hrest
  have hsubject : m.subject? = some j :=
    (subject?_of_request htrap).trans (running?_eq_some_iff.2 hrun)
  cases hdeed with
  | stays hother | boots _ _ hother | drops _ _ hother => exact hother hsubject
  | steps hclear =>
    exact absurd hclear (TrapLine.not_isIdle htrap)
  | rejects _ hmisuses => exact not_misuses_of_register htrap hget hmisuses
  | reloads h | retires h => exact hending h
  | asks hrun' htrap' hget' hview => exact hasks ⟨_, _, rfl, rfl, hrun', htrap', hget', hview⟩
  | fails | fetches | delivers => simp at hrest

end Machine

/-! ## What has been asked for and what has been done -/

namespace Errand

/-- The input words that have been asked for but not read yet. -/
def asked : Errand → Nat
  | reads _ => 1
  | _ => 0

/-- A device has read the word on the last of the `n` lines that have been asked for, or it has not
been able to. -/
def Got (lines : List Line) (n : Nat) : Errand → Prop
  | got _ w => ∃ i, n = i + 1 ∧ (lines[i]?.bind fun line => line.input.toOption) = some w
  | missed _ => ∃ i, n = i + 1 ∧ (lines[i]?.bind fun line => line.input.toOption) = none
  | _ => True

/-- What job `j` has asked for in `m` is what its errand `e` says. -/
def Asked (m : Machine) (j : Nat) (e : Errand) : Prop :=
  match e.target? with
  | some r => (m.asks? j .input).isSome = true ∧ m.line.data = r
  | none => (m.asks? j .output).isSome = true

end Errand

namespace Machine

variable {m m₁ m' x : Machine} {past : List Machine} {j k s : Nat} {e e' : Errand}
  {lines : List Line}

/-- What job `j` has asked for in the `past` of `m` and what has been done for it agree, where `e`
is its errand. The `lines` are those of the input section of the segment that it is in. -/
structure Ledger (past : List Machine) (m : Machine) (j : Nat) (e : Errand) (lines : List Line) :
    Prop where
  on : m.On j e
  segments : ∀ x ∈ past, (x.job j).segments ≤ (m.job j).segments
  source : (m.job j).boot = .booted → (m.job j).life ≠ .finished → 1 ≤ (m.job j).segments ∧
    ∃ r n, m.hardware.source? j = some r ∧ r.part ≠ .code ∧
      gets j (m.job j).segments past = n + e.asked ∧ r.unread = lines.drop n
  got : e.Got lines (gets j (m.job j).segments past)
  whole : ∀ s, 1 ≤ s → s ≤ (m.job j).segments →
    (s = (m.job j).segments → e.side? ≠ some .output) → m.Wrote j s (written (puts j s past))
  begun : ∀ w, e = .writes w → ∃ words, puts j (m.job j).segments past = words ++ [w] ∧
    m.Wrote j (m.job j).segments (written words)
  since : e ≠ .rest → ∃ mid a before, past = mid ++ a :: before ∧
    (∀ x ∈ mid, (x.job j).life = .waiting) ∧ (a.job j).life ≠ .waiting ∧
    (a.job j).segments = (m.job j).segments ∧ a.regsOf j = m.regsOf j ∧ e.Asked a j

/-- No machine of the `past` is in a later segment, and neither is `x`, the one before the turn. -/
theorem Ledger.segments_cons (h : Ledger past m j e lines) (hx : x.Resembles m)
    (hj : j < m.jobs.size) : ∀ y ∈ x :: past, (y.job j).segments ≤ (m.job j).segments := by
  intro y hy
  rcases List.mem_cons.1 hy with rfl | hmem
  · exact (hx.segments (hx.size ▸ hj)).ge
  · exact h.segments y hmem

/-- A turn from `m` to `m'` in which job `j` asks for nothing and enters no segment. -/
theorem Ledger.keep (h : Ledger past m j e lines) (hx : x.Resembles m) (hj : j < m.jobs.size)
    (hasks : ∀ side, m.asks? j side = none) (hconfig : m'.config = m.config)
    (hopens : m.Opens m'.hardware.files)
    (hsegments : (m'.job j).segments = (m.job j).segments)
    (hsource : (m'.job j).boot = .booted → (m'.job j).life ≠ .finished →
      (m.job j).boot = .booted ∧ (m.job j).life ≠ .finished ∧
        m'.hardware.source? j = m.hardware.source? j)
    (hon : m'.On j e') (he : e' = e ∧ m'.regsOf j = m.regsOf j ∨ e' = .rest ∧ e.side? = none) :
    Ledger (x :: past) m' j e' lines := by
  have hview := hx.view j (hx.size ▸ hj)
  -- the turn adds no request to those of the past
  have hputs : ∀ s, puts j s (x :: past) = puts j s past := by
    intro s
    rw [puts_cons, ← hx.asks?, hasks]
    simp
  have hgets : ∀ s, gets j s (x :: past) = gets j s past := by
    intro s
    rw [gets_cons, ← hx.asks?, hasks]
    simp
  have hasked : e'.asked = e.asked := by
    rcases he with ⟨rfl, _⟩ | ⟨rfl, hside⟩
    · rfl
    · cases e <;> simp_all [Errand.asked, Errand.side?]
  constructor
  case on => exact hon
  case segments => exact hsegments.symm ▸ h.segments_cons hx hj
  case source =>
    intro hboot hlife
    obtain ⟨hboot', hlife', hsame⟩ := hsource hboot hlife
    obtain ⟨hpos, r, n, hr, hpart, hn, hunread⟩ := h.source hboot' hlife'
    exact ⟨hsegments.symm ▸ hpos, r, n, hsame.trans hr, hpart,
      by rw [hsegments, hgets, hn, hasked], hunread⟩
  case got =>
    rw [hsegments, hgets]
    rcases he with ⟨rfl, _⟩ | ⟨rfl, _⟩
    · exact h.got
    · trivial
  case whole =>
    intro s hs hle hside
    rw [hputs]
    rw [hsegments] at hle hside
    refine hopens.wrote hconfig hle (h.whole s hs hle fun hsame => ?_)
    rcases he with ⟨rfl, _⟩ | ⟨_, hnone⟩
    · exact hside hsame
    · simp [hnone]
  case begun =>
    intro w hw
    rcases he with ⟨rfl, _⟩ | ⟨rfl, _⟩
    · obtain ⟨words, hwords, hwrote⟩ := h.begun w hw
      rw [hsegments, hputs]
      exact ⟨words, hwords, hopens.wrote hconfig le_rfl hwrote⟩
    · simp at hw
  case since =>
    intro hrest
    rcases he with ⟨rfl, hregs⟩ | ⟨rfl, _⟩
    · -- the machine in which the job has asked lies one tick further back
      obtain ⟨mid, a, before, rfl, hmid, ha, hasegments, haregs, hasked⟩ := h.since hrest
      refine ⟨x :: mid, a, before, rfl, fun y hy => ?_, ha, hasegments.trans hsegments.symm,
        haregs.trans hregs.symm, hasked⟩
      rcases List.mem_cons.1 hy with rfl | hmem
      · rw [← view_life, ← hview]
        exact h.on.waits.2 hrest
      · exact hmid y hmem
    · exact absurd rfl hrest

/-- A turn from `m` to `m'` in which job `j` asks for a transfer on `side`. -/
theorem Ledger.asks (h : Ledger past m j .rest lines) (hx : x.Resembles m) (hj : j < m.jobs.size)
    (hsound : m.Sound) (hconfig : m'.config = m.config) (hopens : m.Opens m'.hardware.files)
    {side : Side} {value : Word} (hrun : m.runs j = true) (htrap : m.line.trap? = some side.request)
    (hget : m.hardware.cpu.regs.get? m.line.data = some value)
    (hview : m'.view j = (m.view j).asks j side m.line.data value)
    (hon : m'.On j (side.errand m.line.data value)) :
    (m'.job j).segments = (m.job j).segments ∧
      Ledger (x :: past) m' j (side.errand m.line.data value) lines := by
  have hxview := hx.view j (hx.size ▸ hj)
  obtain ⟨_, hsource, hjob, _⟩ := h.on.toOn.asks (j := j) side m.line.data value
  rw [← hview] at hsource hjob
  have hsegments : (m'.job j).segments = (m.job j).segments := by
    rw [← view_segments, hjob, view_segments]
  have hxsegments := (hx.segments (hx.size ▸ hj)).symm
  -- one request is added to those of the past, for the device on this side
  have hasks : ∀ side', x.asks? j side' = if side' = side then some value else none := by
    intro side'
    rw [← hx.asks?, asks?, htrap, hget]
    by_cases hside : side' = side
    · rw [if_pos ⟨hrun, by rw [hside]⟩, if_pos hside]
    · have hother : side.request ≠ side'.request := fun hsame =>
        hside (Side.request_inj.1 hsame).symm
      rw [if_neg (fun hand => hother (Option.some.inj hand.2)), if_neg hside]
  obtain ⟨hlife, hboot⟩ := hsound.of_runs hrun
  obtain ⟨hpos, r, n, hr, hpart, hn, hunread⟩ := h.source hboot (by rw [hlife]; decide)
  refine ⟨hsegments, ?_⟩
  constructor
  case on => exact hon
  case segments => exact hsegments.symm ▸ h.segments_cons hx hj
  case source =>
    intro _ _
    refine ⟨hsegments.symm ▸ hpos, r, n, hsource.trans hr, hpart, ?_, hunread⟩
    rw [hsegments, gets_cons, hn, hasks, hxsegments]
    cases side <;> simp [Side.errand, Errand.asked]
  case got => cases side <;> trivial
  case whole =>
    intro s hs hle hside
    rw [hsegments] at hle hside
    have hwhole := hopens.wrote hconfig hle
      (h.whole s hs hle fun _ => by simp [Errand.side?])
    rw [puts_cons, hasks, hxsegments]
    by_cases hsame : (m.job j).segments = s
    · -- the file of this segment is whole only if the job has asked for a word to read
      have hinput : side = .input := by
        have := hside hsame.symm
        cases side
        · rfl
        · simp [Side.errand, Errand.side?] at this
      subst hinput
      simpa using hwhole
    · simpa [hsame] using hwhole
  case begun =>
    intro w hw
    cases side with
    | input => simp [Side.errand] at hw
    | output =>
      obtain rfl : value = w := by simpa [Side.errand] using hw
      refine ⟨puts j (m.job j).segments past, ?_, ?_⟩
      · rw [hsegments, puts_cons, hasks, hxsegments]
        simp
      · rw [hsegments]
        exact hopens.wrote hconfig le_rfl
          (h.whole _ hpos le_rfl fun _ => by simp [Errand.side?])
  case since =>
    intro _
    -- the job waits since this very turn
    refine ⟨[], x, past, rfl, by simp, ?_, hxsegments.trans hsegments.symm, ?_, ?_⟩
    · rw [← view_life, ← hxview, view_life, hlife]
      decide
    · rw [← view_registers, ← view_registers, hjob, ← hxview]
    · cases side <;> simp [Errand.Asked, Side.errand, Errand.target?, hasks, hx.line.symm]

/-- A turn from `m` to `m'` in which job `j` enters a segment. -/
theorem Ledger.enters (h : Ledger past m j e lines) (hx : x.Resembles m) (hj : j < m.jobs.size)
    (hside : e.side? = none) (hasks : ∀ side, m.asks? j side = none)
    (hconfig : m'.config = m.config) (hopens : m.Opens m'.hardware.files)
    (hsegments : (m'.job j).segments = (m.job j).segments + 1) {r : Reader}
    (hsource : m'.hardware.source? j = some r) (hpart : r.part ≠ .code)
    (hwrote : m'.Wrote j ((m.job j).segments + 1) "") (hon : m'.On j .rest) :
    Ledger (x :: past) m' j .rest r.unread := by
  have hbefore := h.segments_cons hx hj
  -- nothing has been asked for in the new segment yet
  have hnew : ∀ y ∈ x :: past, (y.job j).segments ≠ (m.job j).segments + 1 := by
    intro y hy
    have := hbefore y hy
    omega
  refine ⟨hon, fun y hy => ?_, fun _ _ => ⟨by omega, r, 0, hsource, hpart, ?_, rfl⟩, trivial,
    fun s hs hle _ => ?_, fun w hw => by simp at hw, fun hrest => absurd rfl hrest⟩
  · have := hbefore y hy
    omega
  · rw [hsegments, gets_eq_zero hnew]
    rfl
  · rw [hsegments] at hle
    rcases Nat.lt_or_ge (m.job j).segments s with hlt | hge
    · obtain rfl : s = (m.job j).segments + 1 := by omega
      rw [puts_eq_nil hnew]
      exact hwrote
    · rw [puts_cons, ← hx.asks?, hasks]
      simpa using hopens.wrote hconfig hge (h.whole s hs hge fun _ => by simp [hside])

/-- Job `j` has entered its next segment between `m` and `m'`. -/
def Enters (m m' : Machine) (j : Nat) : Prop :=
  (m'.job j).segments = (m.job j).segments + 1 ∧ (m'.job j).boot = .booted ∧
    (m'.job j).life = .runnable

/-- A turn from `m` to `m'` keeps the ledger of job `j`. -/
theorem Ledger.turn {p : Progress} (h : Ledger past m j e lines) (hx : x.Resembles m)
    (hj : j < m.jobs.size) (hsound : m.Sound) (hturned : m.Turned p m')
    (hdeed : m.Deed m' j e e') (hon : m'.On j e') :
    ∃ lines', Ledger (x :: past) m' j e' lines' ∧
      ((m'.job j).segments = (m.job j).segments ∧ lines' = lines ∨ m.Enters m' j) := by
  have hconfig := hturned.config
  have hopens := hturned.opens
  -- the view of a job after a turn tells everything that the ledger needs
  have hkeep : ∀ {v : View}, m'.view j = v → (∀ side, m.asks? j side = none) →
      v.job.segments = (m.view j).job.segments →
      (v.job.boot = .booted → v.job.life ≠ .finished → (m.view j).job.boot = .booted ∧
        (m.view j).job.life ≠ .finished ∧ v.source? = (m.view j).source?) →
      (e' = e ∧ v.job.registers = (m.view j).job.registers ∨ e' = .rest ∧ e.side? = none) →
      ∃ lines', Ledger (x :: past) m' j e' lines' ∧
        ((m'.job j).segments = (m.job j).segments ∧ lines' = lines ∨ m.Enters m' j) := by
    rintro v rfl hasks hsegments hsource he
    exact ⟨lines, h.keep hx hj hasks hconfig hopens hsegments hsource hon he,
      .inl ⟨hsegments, rfl⟩⟩
  have hload : ∀ {v : View} {r reader : Reader} {image : List Instruction}, m'.view j = v →
      e' = .rest → e.side? = none → (∀ side, m.asks? j side = none) →
      r.nextImage = (.ok (some image), reader) → m'.Wrote j ((m.job j).segments + 1) "" →
      v.job.segments = (m.view j).job.segments + 1 → v.job.boot = .booted →
      v.job.life = .runnable → v.source? = some reader →
      ∃ lines', Ledger (x :: past) m' j e' lines' ∧
        ((m'.job j).segments = (m.job j).segments ∧ lines' = lines ∨ m.Enters m' j) := by
    rintro v r reader image rfl rfl hside hasks hnext hwrote hsegments hboot hlife hsource
    exact ⟨reader.unread, h.enters hx hj hside hasks hconfig hopens hsegments hsource
      (Reader.part_ne_code_nextImage hnext) hwrote hon, .inr ⟨hsegments, hboot, hlife⟩⟩
  -- what the job asks for in the turn is the only thing that is added to its ledger
  rcases hdeed.asks?_cases hsound h.on with
    hasks | ⟨side, value, rfl, rfl, hrun, htrap, hget, hview⟩
  · cases hdeed with
    | stays _ hview =>
      exact hkeep hview hasks rfl (fun hboot hlife => ⟨hboot, hlife, rfl⟩) (.inl ⟨rfl, rfl⟩)
    | boots _ _ _ _ hnext hwrote hview =>
      exact hload hview rfl rfl hasks hnext hwrote rfl rfl rfl rfl
    | drops _ _ _ _ _ hview =>
      exact hkeep hview hasks rfl (fun _ hlife => absurd rfl hlife) (.inr ⟨rfl, rfl⟩)
    | steps _ _ _ _ _ hview =>
      exact hkeep hview hasks rfl (fun hboot hlife => ⟨hboot, hlife, rfl⟩) (.inr ⟨rfl, rfl⟩)
    | rejects _ _ _ _ hview =>
      exact hkeep hview hasks rfl (fun hboot hlife => ⟨hboot, hlife, rfl⟩) (.inr ⟨rfl, rfl⟩)
    | reloads hending _ hnext hwrote hview =>
      have hboot : (m.job j).boot = .booted := by
        cases hending with
        | stops hrun | errs hrun => exact (hsound.of_runs hrun).2
        | misses => exact (h.on.opened hsound hj (by simp)).1
      exact hload hview rfl hending.side?_eq hasks hnext hwrote rfl hboot rfl rfl
    | retires hending _ hview =>
      exact hkeep hview hasks rfl (fun _ hlife => absurd rfl hlife)
        (.inr ⟨rfl, hending.side?_eq⟩)
    | @asks side value hrun htrap hget =>
      have hnone := hasks side
      rw [asks?, if_pos ⟨hrun, htrap⟩, hget] at hnone
      simp at hnone
    | fails _ _ _ hview =>
      exact hkeep hview hasks rfl (fun hboot hlife => ⟨hboot, hlife, rfl⟩) (.inl ⟨rfl, rfl⟩)
    | fetches hview =>
      exact hkeep hview hasks rfl (fun hboot _ => ⟨hboot, h.on.unfinished (by simp), rfl⟩)
        (.inr ⟨rfl, rfl⟩)
    | delivers hview =>
      exact hkeep hview hasks rfl (fun hboot _ => ⟨hboot, h.on.unfinished (by simp), rfl⟩)
        (.inr ⟨rfl, rfl⟩)
  · obtain ⟨hsegments, hledger⟩ :=
      h.asks hx hj hsound hconfig hopens hrun htrap hget hview hon
    exact ⟨lines, hledger, .inl ⟨hsegments, rfl⟩⟩

/-- What job `j` has asked for, and the registers with which, stay as they are in a tick of a
device. -/
theorem Ledger.since_of_job (h : Ledger past m j e lines) (hjob : (m'.view j).job = (m.view j).job)
    (hrest : e ≠ .rest) (htarget : e'.target? = e.target?) :
    ∃ mid a before, past = mid ++ a :: before ∧ (∀ y ∈ mid, (y.job j).life = .waiting) ∧
      (a.job j).life ≠ .waiting ∧ (a.job j).segments = (m'.job j).segments ∧
      a.regsOf j = m'.regsOf j ∧ e'.Asked a j := by
  obtain ⟨mid, a, before, hpast, hmid, ha, hsegments, hregs, hasked⟩ := h.since hrest
  refine ⟨mid, a, before, hpast, hmid, ha, ?_, ?_, ?_⟩
  · rw [hsegments, ← view_segments, ← view_segments, hjob]
  · rw [hregs, ← view_registers, ← view_registers, hjob]
  · unfold Errand.Asked at hasked ⊢
    rw [htarget]
    exact hasked

/-- With `n` lines read, `Device.readWord` takes the word on the next one. -/
theorem readWord_drop {r : Reader} {n : Nat} (hpart : r.part ≠ .code)
    (hunread : r.unread = lines.drop n) :
    ∃ r', (Device.readWord (some r)).2 = some r' ∧ r'.part ≠ .code ∧
      r'.unread = lines.drop (n + 1) ∧
      (Device.readWord (some r)).1.toOption = lines[n]?.bind fun line => line.input.toOption := by
  obtain ⟨r', hnext, hpart', _, htail, _, hword⟩ := Reader.readWord_some hpart
  refine ⟨r', hnext, hpart', ?_, ?_⟩
  · rw [htail, hunread, List.tail_drop]
  · rw [hword, hunread, List.head?_drop]

/-- A tick of a device keeps the ledger of job `j`. -/
theorem Ledger.chore :
    KeptByChores j fun m e => Ledger past m j e lines := by
  intro m m' e e' hj hchores _ hon hchore hopened h
  have hjob := hchores.job j hj
  have hsegments : (m'.job j).segments = (m.job j).segments := by
    rw [← view_segments, hjob, view_segments]
  have hsource : (m'.job j).boot = .booted → (m'.job j).life ≠ .finished →
      1 ≤ (m.job j).segments ∧ ∃ r n, m.hardware.source? j = some r ∧ r.part ≠ .code ∧
        gets j (m.job j).segments past = n + e.asked ∧ r.unread = lines.drop n := by
    rw [← view_boot, ← view_life, hjob]
    exact h.source
  cases hchore with
  -- nothing has been done for the job, so all of its accounts stand
  | keeps hsame hwrote =>
    constructor
    case on => exact hon
    case segments => exact hsegments.symm ▸ h.segments
    case got => exact hsegments.symm ▸ h.got
    case since => exact fun hrest => h.since_of_job hjob hrest rfl
    case source =>
      intro hboot hlife
      rw [hsegments, hsame]
      exact hsource hboot hlife
    case whole =>
      intro s hs hle hside
      rw [hsegments] at hle hside
      exact hwrote _ _ (h.whole s hs hle hside)
    case begun =>
      intro w hw
      obtain ⟨words, hwords, hw'⟩ := h.begun w hw
      rw [hsegments]
      exact ⟨words, hwords, hwrote _ _ hw'⟩
  | @reads register word hword hwrote =>
    obtain ⟨hboot, hlife⟩ := hopened (by simp)
    -- the first `n` lines were read before, and the line that has been asked for is the next one
    obtain ⟨hpos, r, n, hr, hpart, hn, hunread⟩ := h.source hboot hlife
    obtain ⟨r', hnext, hpart', hunread', hline⟩ := readWord_drop hpart hunread
    rw [← hr, hword] at hnext hline
    have hn' : gets j (m'.job j).segments past = n + 1 := by
      rw [hsegments, hn]
      rfl
    have hgot : (Errand.answer register word).Got lines (n + 1) := by
      cases word <;> exact ⟨n, rfl, hline.symm⟩
    constructor
    case on => exact hon
    case segments => exact hsegments.symm ▸ h.segments
    case got => exact hn'.symm ▸ hgot
    case source =>
      refine fun _ _ => ⟨hsegments.symm ▸ hpos, r', n + 1, hnext, hpart', ?_, hunread'⟩
      rw [hn']
      cases word <;> rfl
    case whole =>
      intro s hs hle _
      rw [hsegments] at hle
      exact hwrote _ _ (h.whole s hs hle fun _ => by simp [Errand.side?])
    case begun =>
      intro w hw
      cases word <;> simp [Errand.answer] at hw
    case since =>
      refine fun _ => h.since_of_job hjob (by simp) ?_
      cases word <;> rfl
  | @writes w hsame hwrote =>
    obtain ⟨words, hwords, hw⟩ := h.begun w rfl
    constructor
    case on => exact hon
    case segments => exact hsegments.symm ▸ h.segments
    case got => trivial
    case begun => exact fun w' hw' => by simp at hw'
    case since => exact fun _ => h.since_of_job hjob (by simp) rfl
    case source =>
      intro hboot hlife
      rw [hsegments, hsame]
      exact hsource hboot hlife
    case whole =>
      intro s hs hle _
      rw [hsegments] at hle
      by_cases hs' : s = (m.job j).segments
      · -- the word that was missing from the file of this segment has been added
        subst hs'
        have hline := hwrote _ _ hw
        rw [if_pos rfl] at hline
        rw [hwords, written_append]
        exact hline
      · have hline := hwrote _ _ (h.whole s hs hle fun hsame => absurd hsame hs')
        rwa [if_neg hs'] at hline

/-- `tick` keeps the ledger of job `j`. -/
theorem Ledger.tick {p : Progress} (h : Ledger past m j e lines) (hj : j < m.jobs.size)
    (hsound : m.Sound) (horderly : m.Orderly) (hfits : m.Fits) (hlawful : m.isLawful = true)
    (htick : m.tick = (p, m')) :
    ∃ m₀ m₁ e₁ e' lines', m.Resembles m₀ ∧ m₀.Sound ∧ Ledger past m₀ j e lines ∧
      m₀.Deed m₁ j e e₁ ∧ (m'.view j).job = (m₁.view j).job ∧ Ledger (m :: past) m' j e' lines' ∧
      ((m'.job j).segments = (m.job j).segments ∧ lines' = lines ∨ m.Enters m' j) := by
  obtain ⟨m₀, m₁, e₁, hresembles, hsound₀, _, hon₀, hturned, hdeed, hon₁, hjob, hkept⟩ :=
    hsound.tick_job horderly hfits hlawful htick hj h.on
  have hj₀ : j < m₀.jobs.size := hresembles.size.symm ▸ hj
  have h₀ := (hkept _ Ledger.chore).1 h
  obtain ⟨lines', h₁, hlines⟩ := h₀.turn hresembles hj₀ hsound₀ hturned hdeed hon₁
  obtain ⟨e', _, h'⟩ := (hkept _ Ledger.chore).2 h₁
  refine ⟨m₀, m₁, e₁, e', lines', hresembles, hsound₀, h₀, hdeed, hjob, h', ?_⟩
  -- what comes after the turn leaves the slot of the job table as it is
  have hsegments₀ : (m₀.job j).segments = (m.job j).segments := by
    rw [← view_segments, hresembles.view j hj, view_segments]
  rw [Enters, ← view_segments, ← view_boot, ← view_life, hjob, ← hsegments₀]
  exact hlines

section Launch

variable {jobs : List (Job × Option Reader)} {config : Config} {files : Files} {journal : Journal}
  {first : Machine}

/-- When the machine has started as `first`, job `j` has asked for nothing. -/
theorem Launches.ledger (hlaunch : Launches jobs config files journal first)
    (hregular : (new jobs config files journal).Regular) (hj : j < jobs.length) :
    Ledger [] first j .rest (inputLines j (first.job j).segments [first]) := by
  obtain ⟨hdeed, hon⟩ := hlaunch.deed hregular hj
  obtain ⟨index, origin, path?, hview⟩ := exists_view_new config files journal hlaunch.1 hj
  have hnone : (new jobs config files journal).runs j = false := rfl
  have hsegments : ((new jobs config files journal).job j).segments = 0 := by
    rw [← view_segments, hview]
    rfl
  -- a start has booted the job, given it up, or left it alone
  have hstart : ∀ e', (new jobs config files journal).Deed first j .rest e' →
      (((first.job j).boot = .booted → (first.job j).life = .finished) ∧
        (first.job j).segments = 0) ∨
      ((first.job j).segments = 1 ∧ first.Wrote j 1 "" ∧
        ∃ r, first.hardware.source? j = some r ∧ r.part ≠ .code) := by
    intro e' hdeed
    rw [← view_segments, ← view_boot, ← view_life, ← view_source?]
    cases hdeed with
    | stays _ hsame =>
      rw [hsame, hview]
      exact .inl ⟨by simp [Job.new], rfl⟩
    | drops _ _ _ _ _ hdropped =>
      rw [hdropped]
      exact .inl ⟨fun _ => rfl, hsegments⟩
    | @boots r reader image s _ _ _ _ hnext hwrote hstarted =>
      have hpart := Reader.part_ne_code_nextImage hnext
      rw [hsegments] at hwrote
      rw [hstarted]
      exact .inr ⟨congrArg (· + 1) hsegments, hwrote, reader, rfl, hpart⟩
    | steps _ hrun | rejects hrun | asks hrun => simp [hnone] at hrun
    | reloads hending | retires hending =>
      cases hending with
      | stops hrun | errs hrun => simp [hnone] at hrun
  rcases hstart _ hdeed with ⟨hover, hzero⟩ | ⟨hone, hwrote, r, hsource, hpart⟩
  · refine ⟨hon, by simp, fun hboot hlife => absurd (hover hboot) hlife, trivial,
      fun s hs hle => ?_, fun w hw => by simp at hw, fun hrest => absurd rfl hrest⟩
    omega
  · have hlines : inputLines j (first.job j).segments [first] = r.unread :=
      inputLines_new (by simp) rfl hsource
    refine ⟨hon, by simp, fun _ _ => ⟨hone.ge, r, 0, hsource, hpart, rfl, hlines.symm⟩, trivial,
      fun s hs hle _ => ?_, fun w hw => by simp at hw, fun hrest => absurd rfl hrest⟩
    obtain rfl : s = 1 := by omega
    exact hwrote

/-- In a lawful run from `first` to `m` the ledger of job `j` is kept. -/
theorem Run.ledger (hlaunch : Launches jobs config files journal first)
    (hregular : (new jobs config files journal).Regular) (hfew : 2 * jobs.length < 2 ^ 31)
    {p : Progress} (hrun : Run first p past m) (hlawful : ∀ x ∈ past, x.isLawful = true)
    (hj : j < jobs.length) :
    ∃ e, Ledger past m j e (inputLines j (m.job j).segments (m :: past)) := by
  induction hrun with
  | start => exact ⟨.rest, hlaunch.ledger hregular hj⟩
  | @tick past m m' p hrun htick ih =>
    have hpast : ∀ x ∈ past, x.isLawful = true := fun x hx => hlawful x (List.mem_cons_of_mem _ hx)
    obtain ⟨e, h⟩ := ih hpast
    obtain ⟨_, _, _, e', lines', _, _, _, _, _, h', hlines⟩ :=
      h.tick (hrun.size hlaunch ▸ hj) ((hrun.sound hlaunch.sound).2 rfl)
        (hrun.orderly hlaunch hregular hfew hpast).2 (hrun.fits hlaunch hfew)
        (hlawful m List.mem_cons_self) htick
    refine ⟨e', ?_⟩
    -- the lines at hand change only when the job enters its next segment
    rcases hlines with ⟨hsame, rfl⟩ | ⟨hnext, hboot, hlife⟩
    · rw [inputLines_cons ⟨m, List.mem_cons_self, hsame.symm⟩, hsame]
      exact h'
    · have hnew : ∀ y ∈ m :: past, (y.job j).segments ≠ (m'.job j).segments := by
        intro y hy
        rcases List.mem_cons.1 hy with rfl | hmem
        · omega
        · have := h.segments y hmem
          omega
      obtain ⟨_, r, n, hsource, _, hn, hunread⟩ := h'.source hboot (by rw [hlife]; decide)
      rw [gets_eq_zero hnew] at hn
      obtain rfl : n = 0 := by omega
      rw [inputLines_new hnew rfl hsource, hunread]
      exact h'

end Launch

end Machine

end BatchMachine
