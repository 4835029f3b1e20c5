import BatchMachine.Proofs.Ledgers
import BatchMachine.Proofs.ServiceTimes

/-!
# Input and output, exactly once and in order

A job that asks for a transfer waits until it is served, and it is served in a bounded number of
ticks. What it is given then, or what is written for it, can be told from its ledger.

* `Machine.WaitsSince`: a job that waits for what it has asked for.
* `Machine.Receives`, `Machine.Resumes`: what it has come to when it goes on.
* `Machine.Run.received`, `Machine.Run.resumed`: it comes to nothing else.
* `Machine.exactly_once`: input and output in lawful runs.
-/

namespace BatchMachine

open JobText

namespace Machine

variable {m m₁ m' : Machine} {past : List Machine} {j s : Nat} {e e' : Errand} {lines : List Line}

/-- Job `j` asks for nothing while it waits. -/
theorem Sound.asks?_of_waiting (h : m.Sound) (hlife : (m.job j).life = .waiting) (side : Side) :
    m.asks? j side = none := by
  rw [asks?, h.runs_of_waiting hlife]
  simp

theorem Sound.life_of_asks? (h : m.Sound) {side : Side} (hasks : (m.asks? j side).isSome = true) :
    (m.job j).life ≠ .waiting := by
  intro hlife
  rw [h.asks?_of_waiting hlife] at hasks
  simp at hasks

/-- `a.WaitsSince j x`: in `x` job `j` waits, with the registers and in the segment that it had in
`a`. -/
structure WaitsSince (a : Machine) (j : Nat) (x : Machine) : Prop where
  life : (x.job j).life = .waiting
  regs : x.regsOf j = a.regsOf j
  segments : (x.job j).segments = (a.job j).segments

/-- `a.Receives j word? x`: job `j` has asked for a word in `a` and gets it in `x`. The word is put
into the register that the job has named, and no other register changes. If there is none, the
segment that the job was in has ended with the number of its input device, and the job is over or in
its next segment. -/
def Receives (a : Machine) (j : Nat) (word? : Option Word) (x : Machine) : Prop :=
  match word? with
  | some w => (x.job j).life = .runnable ∧ x.regsOf j = (a.regsOf j).set a.line.data w ∧
      (x.job j).segments = (a.job j).segments
  | none => (x.job j).outcome? = some (.fatal (.ofCount (inputNumber j))) ∧
      ((x.job j).life = .finished ∨
        ((x.job j).life = .runnable ∧ (x.job j).segments = (a.job j).segments + 1))

/-- A turn that ends the wait of job `j` brings it what its errand `e` was about. -/
theorem Deed.wakes_cases (hdeed : m.Deed m' j e e') (hrest : e ≠ .rest)
    (hlife : (m.view j).job.life = .waiting) (hlife' : (m'.view j).job.life ≠ .waiting) :
    (∃ r w, e = .got r w ∧ m'.view j = (m.view j).collected .input) ∨
      (∃ r, e = .missed r ∧
        (m'.view j).job.outcome? = some (.fatal (.ofCount (inputNumber j))) ∧
        ((m'.view j).job.life = .finished ∨ ((m'.view j).job.life = .runnable ∧
          (m'.view j).job.segments = (m.view j).job.segments + 1))) ∨
      ∃ w, e = .wrote w ∧ m'.view j = (m.view j).collected .output := by
  -- a turn that leaves the job as it is does not wake it
  have hchanged : (m'.view j).job ≠ (m.view j).job := fun hsame => hlife' (hsame ▸ hlife)
  cases hdeed with
  | boots | drops | steps | rejects | asks => exact absurd rfl hrest
  | stays _ hsame | fails _ _ _ hsame => exact absurd (congrArg View.job hsame) hchanged
  | @fetches r w hview => exact .inl ⟨r, w, rfl, hview⟩
  | @delivers w hview => exact .inr (.inr ⟨w, rfl, hview⟩)
  | reloads hending _ _ _ hview =>
    cases hending with
    | stops | errs => exact absurd rfl hrest
    | misses =>
      rw [hview]
      exact .inr (.inl ⟨_, rfl, rfl, .inr ⟨rfl, rfl⟩⟩)
  | retires hending _ hview =>
    cases hending with
    | stops | errs => exact absurd rfl hrest
    | misses =>
      rw [hview]
      exact .inr (.inl ⟨_, rfl, rfl, .inl rfl⟩)

/-- The request that job `j` waits for is the last one that it has made, in `a`. -/
theorem Ledger.asked (h : Ledger past m j e lines) (hlife : (m.job j).life = .waiting)
    {a : Machine} {mid before : List Machine} (hpast : past = mid ++ a :: before)
    (hmid : ∀ y ∈ mid, (y.job j).life = .waiting) (ha : (a.job j).life ≠ .waiting) :
    (a.job j).segments = (m.job j).segments ∧ a.regsOf j = m.regsOf j ∧ e.Asked a j := by
  obtain ⟨mid₀, a₀, before₀, hpast₀, hmid₀, ha₀, hsegments, hregs, hasked⟩ :=
    h.since (h.on.waits.1 hlife)
  obtain ⟨rfl, rfl, rfl⟩ := List.eq_of_append_cons (hpast₀.symm.trans hpast) hmid₀ hmid ha₀ ha
  exact ⟨hsegments, hregs, hasked⟩

/-- Job `j`, if it has asked in `a` to read a word, gets the one on the first line that has not been
asked for before. -/
theorem Ledger.received (h : Ledger past m j e lines) (hdeed : m.Deed m₁ j e e')
    (hjob : (m'.view j).job = (m₁.view j).job) {a : Machine} {mid before : List Machine}
    (hpast : past = mid ++ a :: before) (hmid : ∀ y ∈ mid, (y.job j).life = .waiting)
    (ha : (a.job j).life ≠ .waiting) (hinput : (a.asks? j .input).isSome = true) {n : Nat}
    (hgets : gets j (a.job j).segments past = n + 1) (hlife : (m.job j).life = .waiting)
    (hlife' : (m'.job j).life ≠ .waiting) :
    a.Receives j (lines[n]?.bind fun line => line.input.toOption) m' := by
  obtain ⟨hsegments, hregs, hasked⟩ := h.asked hlife hpast hmid ha
  have hgot := h.got
  rw [← hsegments, hgets] at hgot
  rw [← view_life, hjob] at hlife'
  -- everything is said of the job, which the devices leave as the turn has left it
  unfold Receives
  simp only [← view_life (m := m'), ← view_registers (m := m'), ← view_segments (m := m'),
    ← view_outcome? (m := m'), hjob, hsegments, hregs]
  rcases hdeed.wakes_cases (h.on.waits.1 hlife) hlife hlife' with
    ⟨r, w, rfl, hcollected⟩ | ⟨r, rfl, houtcome, hends⟩ | ⟨w, rfl, _⟩
  · obtain ⟨i, hi, hsome⟩ := hgot
    obtain rfl : n = i := by omega
    have htarget : (m.view j).job.target? = some r := h.on.target
    have hword : (m.view j).input.trap.data = w := h.on.held
    rw [hsome, hcollected]
    refine ⟨if_pos hlife, ?_, rfl⟩
    simp only [View.collected, htarget, hword]
    rw [hasked.2]
    rfl
  · obtain ⟨i, hi, hnone⟩ := hgot
    obtain rfl : n = i := by omega
    rw [hnone]
    exact ⟨houtcome, hends⟩
  · -- a job that waits for its output device has not asked for a word to read
    have houtput := (runs_of_asks? hasked).2
    rw [(runs_of_asks? hinput).2] at houtput
    exact absurd houtput (by decide)

section Launch

variable {jobs : List (Job × Option Reader)} {config : Config} {files : Files} {journal : Journal}
  {first : Machine}

/-- If job `j` has asked for a transfer in `a` and has waited until the last tick, then its ledger
tells what this tick brings. -/
theorem Run.served (hlaunch : Launches jobs config files journal first)
    (hregular : (new jobs config files journal).Regular) (hfew : 2 * jobs.length < 2 ^ 31)
    {p : Progress} {a : Machine} {mid before : List Machine}
    (hrun : Run first p (mid ++ a :: before) m)
    (hlawful : ∀ x ∈ mid ++ a :: before, x.isLawful = true) (hj : j < jobs.length)
    (hmid : ∀ x ∈ mid, (x.job j).life = .waiting) {side : Side}
    (hasks : (a.asks? j side).isSome = true) (hlife : (m.job j).life ≠ .waiting) :
    ∃ x mid' m₀ m₁ e e', mid = x :: mid' ∧ (m₀.job j).life = .waiting ∧
      Ledger (mid' ++ a :: before) m₀ j e (inputLines j (a.job j).segments (a :: before)) ∧
      m₀.Deed m₁ j e e' ∧ (m.view j).job = (m₁.view j).job := by
  have hsound := (hrun.sound hlaunch.sound).1
  have ha := (hsound a (by simp)).life_of_asks? hasks
  -- the tick of `x`, of whose past the ledger of the job is known
  have hticked : ∀ {x : Machine} {past : List Machine}, Run first .running past x →
      x.tick = (p, m) → (∀ y ∈ x :: past, y.isLawful = true) →
      ∃ e m₀ m₁ e', x.Resembles m₀ ∧ m₀.Sound ∧
        Ledger past m₀ j e (inputLines j (x.job j).segments (x :: past)) ∧ m₀.Deed m₁ j e e' ∧
        (m.view j).job = (m₁.view j).job := by
    intro x past hrun htick hlawful
    have hpast : ∀ y ∈ past, y.isLawful = true := fun y hy => hlawful y (List.mem_cons_of_mem _ hy)
    obtain ⟨e, h⟩ := hrun.ledger hlaunch hregular hfew hpast hj
    obtain ⟨m₀, m₁, e₁, _, _, hresembles, hsound₀, h₀, hdeed, hjob, _, _⟩ :=
      h.tick (hrun.size hlaunch ▸ hj) ((hrun.sound hlaunch.sound).2 rfl)
        (hrun.orderly hlaunch hregular hfew hpast).2 (hrun.fits hlaunch hfew)
        (hlawful x List.mem_cons_self) htick
    exact ⟨e, m₀, m₁, e₁, hresembles, hsound₀, h₀, hdeed, hjob⟩
  cases mid with
  | nil =>
    cases hrun with
    | tick hrun htick =>
      obtain ⟨e, m₀, m₁, e', hresembles, hsound₀, h₀, hdeed, hjob⟩ := hticked hrun htick hlawful
      rcases hdeed.asks?_cases hsound₀ h₀.on with
        hquiet | ⟨side', value, rfl, rfl, _, _, _, hview⟩
      · rw [← hresembles.asks?, hquiet] at hasks
        simp at hasks
      · refine absurd ?_ hlife
        rw [← view_life, hjob, hview, (h₀.on.toOn.asks side' _ value).2.2.1]
  | cons x mid =>
    cases hrun with
    | tick hrun htick =>
      obtain ⟨e, m₀, m₁, e', hresembles, hsound₀, h₀, hdeed, hjob⟩ := hticked hrun htick hlawful
      have hwaits := hmid x List.mem_cons_self
      have hwaits₀ : (m₀.job j).life = .waiting := by
        rwa [← view_life, hresembles.view j (lt_size_of_waiting hwaits), view_life]
      have hsegments : (a.job j).segments = (x.job j).segments := by
        rw [(h₀.asked hwaits₀ rfl (fun y hy => hmid y (List.mem_cons_of_mem _ hy)) ha).1,
          hresembles.segments (lt_size_of_waiting hwaits)]
      have hlines : inputLines j (x.job j).segments (x :: (mid ++ a :: before)) =
          inputLines j (a.job j).segments (a :: before) := by
        rw [← hsegments, ← List.cons_append]
        exact inputLines_append ⟨a, List.mem_cons_self, rfl⟩
      exact ⟨x, mid, m₀, m₁, e, e', rfl, hwaits₀, hlines ▸ h₀, hdeed, hjob⟩

/-- As long as job `j` waits for what it has asked for in `a`, it stays as it was. -/
theorem Run.waitsSince (hlaunch : Launches jobs config files journal first)
    (hregular : (new jobs config files journal).Regular) (hfew : 2 * jobs.length < 2 ^ 31)
    {p : Progress} {a : Machine} {mid before : List Machine}
    (hrun : Run first p (mid ++ a :: before) m)
    (hlawful : ∀ x ∈ mid ++ a :: before, x.isLawful = true) (hj : j < jobs.length)
    (hmid : ∀ x ∈ mid, (x.job j).life = .waiting) (ha : (a.job j).life ≠ .waiting)
    (hlife : (m.job j).life = .waiting) : a.WaitsSince j m := by
  obtain ⟨e, h⟩ := hrun.ledger hlaunch hregular hfew hlawful hj
  obtain ⟨hsegments, hregs, _⟩ := h.asked hlife rfl hmid ha
  exact ⟨hlife, hregs.symm, hsegments.symm⟩

/-- Job `j`, if it has asked for a word in `a`, waits until it receives it. -/
theorem Run.received (hlaunch : Launches jobs config files journal first)
    (hregular : (new jobs config files journal).Regular) (hfew : 2 * jobs.length < 2 ^ 31)
    {p : Progress} {a : Machine} {mid before : List Machine}
    (hrun : Run first p (mid ++ a :: before) m)
    (hlawful : ∀ x ∈ mid ++ a :: before, x.isLawful = true) (hj : j < jobs.length)
    (hmid : ∀ x ∈ mid, (x.job j).life = .waiting) (hasks : (a.asks? j .input).isSome = true) :
    ((m.job j).life = .waiting ∧ a.WaitsSince j m) ∨
      a.Receives j ((inputLines j (a.job j).segments (a :: before))[
        gets j (a.job j).segments before]?.bind fun line => line.input.toOption) m := by
  have hsound := (hrun.sound hlaunch.sound).1
  have ha := (hsound a (by simp)).life_of_asks? hasks
  by_cases hlife : (m.job j).life = .waiting
  · exact .inl ⟨hlife, hrun.waitsSince hlaunch hregular hfew hlawful hj hmid ha hlife⟩
  · obtain ⟨x, mid', m₀, m₁, e, e', rfl, hwaits, h, hdeed, hjob⟩ :=
      hrun.served hlaunch hregular hfew hlawful hj hmid hasks hlife
    have hmid' : ∀ y ∈ mid', (y.job j).life = .waiting :=
      fun y hy => hmid y (List.mem_cons_of_mem _ hy)
    have hgets : gets j (a.job j).segments (mid' ++ a :: before) =
        gets j (a.job j).segments before + 1 :=
      gets_append (fun y hy => (hsound y (by simp [hy])).asks?_of_waiting (hmid' y hy) _) rfl hasks
    exact .inr (h.received hdeed hjob rfl hmid' ha hasks hgets hwaits hlife)

end Launch

end Machine

end BatchMachine
