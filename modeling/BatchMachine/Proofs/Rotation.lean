import Mathlib.Data.List.Infix
import Mathlib.Data.List.Nodup
import Mathlib.Data.Nat.ModEq
import BatchMachine.Proofs.Activation
import BatchMachine.Proofs.RoundRobin

/-!
# The search for the next job

The scheduler looks for the next job around the job table, from the job after the current one to
the current one itself, and starts over from there whenever a job cannot be booted. That loop has
no count of its own. It ends because every job that is tried in vain is given up, which takes it
out of the jobs that can run and leaves the others in their order.

* `Machine.candidates`: the jobs that can run, in the order of the search.
* `Machine.Searches`: the loop, with the jobs that it tries and how it goes with each.
* `Machine.searches_rotate`: rotating among the jobs is that loop.
* `Machine.rotate_spec`: what the loop comes to.
-/

namespace BatchMachine

namespace Machine

variable {m m₁ m' : Machine} {j k : Nat}

/-! ## The order of the search -/

/-- All jobs of `m`, from the job after the current one around the table to the current one. -/
def around (m : Machine) : List Nat :=
  (List.range m.jobs.size).map fun k => (m.current + 1 + k) % m.jobs.size

/-- The jobs of `m` that can run, in the order in which they are tried. -/
def candidates (m : Machine) : List Nat :=
  m.around.filter fun j => (m.job j).isRunnable

theorem nextRunnable?_eq_head? : m.nextRunnable? = m.candidates.head? :=
  List.head?_filter.symm

/-- No job is passed twice on the way around the table. -/
theorem nodup_around : m.around.Nodup := by
  refine List.Nodup.map_on (fun i hi k hk h => ?_) List.nodup_range
  have hmod : Nat.ModEq m.jobs.size i k := Nat.ModEq.add_left_cancel' (m.current + 1) h
  exact Nat.ModEq.eq_of_lt_of_lt hmod (List.mem_range.1 hi) (List.mem_range.1 hk)

/-- Job `j` is passed, wherever the way starts. -/
theorem mem_around (hj : j < m.jobs.size) : j ∈ m.around := by
  obtain ⟨i, hi, hplace⟩ := exists_mod_eq (m.current + 1) hj
  exact List.mem_map.2 ⟨i, List.mem_range.2 hi, hplace⟩

theorem mem_candidates : j ∈ m.candidates ↔ j ∈ m.around ∧ (m.job j).life = .runnable := by
  simp [candidates, Job.isRunnable]

theorem lt_of_mem_candidates (h : j ∈ m.candidates) : j < m.jobs.size := by
  obtain ⟨hmem, _⟩ := mem_candidates.1 h
  obtain ⟨k, hk, rfl⟩ := List.mem_map.1 hmem
  exact Nat.mod_lt _ (Nat.zero_lt_of_lt (List.mem_range.1 hk))

theorem nodup_candidates : m.candidates.Nodup :=
  nodup_around.filter _

theorem length_candidates_le : m.candidates.length ≤ m.jobs.size := by
  have := List.length_filter_le (fun j => (m.job j).isRunnable) m.around
  simpa [candidates, around] using this

/-- When job `j`, the first of the candidates, is given up, the others are left in their order. -/
theorem candidates_of_abandoned {js : List Nat} (h : m.candidates = j :: js)
    (hconfines : m.Confines j m') (hown : m'.job j = (m.job j).abandoned) : m'.candidates = js := by
  have haround : m'.around = m.around := by
    unfold around
    rw [hconfines.size, hconfines.current]
  have hrunnable : ∀ k, (m'.job k).isRunnable = (!(k == j) && (m.job k).isRunnable) := by
    intro k
    by_cases hk : k = j
    · subst hk
      rw [hown]
      simp [Job.abandoned, Job.isRunnable]
    · rw [hconfines.job k hk]
      simp [hk]
  -- all but the one job can run as before, and it stands only once on the way
  have hfilter : m'.candidates = m.candidates.filter fun k => !(k == j) := by
    unfold candidates
    rw [haround, List.filter_filter]
    simp only [hrunnable]
  have hnodup := h ▸ nodup_candidates (m := m)
  rw [hfilter, h]
  simp only [beq_self_eq_true, Bool.not_true, Bool.false_eq_true, not_false_eq_true,
    List.filter_cons_of_neg]
  refine List.filter_eq_self.2 fun k hk => ?_
  have hne : k ≠ j := fun heq => (List.nodup_cons.1 hnodup).1 (heq ▸ hk)
  simpa using hne

/-! ## One attempt -/

/-- Job `j`, when it is tried in vain, is given up, and all else stays but its text and its
devices. -/
theorem abandoned_of_activate {e : LoadError} (hloadable : m.Loadable) (hj : j < m.jobs.size)
    (h : m.activate j = (.error e, m₁)) :
    m.Confines j (m₁.giveUp j e) ∧ (m₁.giveUp j e).job j = (m.job j).abandoned := by
  obtain ⟨_, _, hprepares⟩ := prepares_of_activate hj (hloadable j hj) h
  refine ⟨hprepares.toConfines.trans (confines_giveUp j e), ?_⟩
  rw [job_giveUp (hprepares.size.symm ▸ hj), hprepares.own]

/-- Giving up job `j` leaves every image that fits. -/
theorem Loadable.abandoned (h : m.Loadable) (hconfines : m.Confines j m')
    (hown : m'.job j = (m.job j).abandoned) : m'.Loadable := by
  intro k hk
  have hfits := h k (hconfines.size ▸ hk)
  by_cases hkj : k = j
  · subst hkj
    rw [hown]
    exact hfits
  · rw [hconfines.job k hkj]
    exact hfits

theorem job_of_size_le (h : m.jobs.size ≤ k) : m.job k = .new k "" none := by
  simp [job, Array.getD_eq_getD_getElem?, h]

/-- Switching to job `j`, which can run, changes neither the life nor the outcome of any job `k`. -/
theorem SwitchesTo.standing (h : m.SwitchesTo j m') (hlife : (m.job j).life = .runnable) (k : Nat) :
    (m'.job k).life = (m.job k).life ∧ (m'.job k).outcome? = (m.job k).outcome? := by
  by_cases hk : k = j
  · subst hk
    cases hboot : (m.job k).boot with
    | fresh =>
      rw [hlife]
      exact h.boots hboot
    | booted =>
      rw [h.resumes hboot]
      exact ⟨rfl, rfl⟩
  -- of the job that makes room only the registers and the trap line are saved
  · by_cases hrun : m.runs k = true
    · obtain ⟨hbusy, rfl⟩ := runs_eq_true_iff.1 hrun
      by_cases hlt : m.current < m.jobs.size
      · rw [h.saves hbusy hlt]
        exact ⟨rfl, rfl⟩
      · rw [job_of_size_le (not_lt.1 hlt), job_of_size_le (h.size ▸ not_lt.1 hlt)]
        exact ⟨rfl, rfl⟩
    · rw [h.job k hk (by simpa using hrun)]
      exact ⟨rfl, rfl⟩

/-- When the attempt at job `j`, which can run, succeeds, the job runs, and no job has changed its
life or its outcome. -/
theorem standing_of_activate (hj : j < m.jobs.size) (hlife : (m.job j).life = .runnable)
    (h : m.activate j = (.ok (), m')) :
    m'.runs j = true ∧
      ∀ k, (m'.job k).life = (m.job k).life ∧ (m'.job k).outcome? = (m.job k).outcome? := by
  rcases activate_inv hj h with ⟨hrun, -, rfl⟩ | ⟨-, -, hswitches⟩ | ⟨-, ⟨e, herror⟩, -⟩
  · exact ⟨hrun, fun _ => ⟨rfl, rfl⟩⟩
  · exact ⟨hswitches.runs.2 rfl, hswitches.standing hlife⟩
  · simp at herror

/-! ## The loop -/

/-- The loop that searches for the next job, from a machine to the machine that it leaves: the jobs
that it tries, each with how it goes, and its answer. -/
inductive Searches : Machine → List (Nat × Except LoadError Unit) → Bool → Machine → Prop
  /-- No job is left that can run. -/
  | exhausted {m : Machine} : m.nextRunnable? = none → Searches m [] false m
  /-- The next job `j` runs. -/
  | finds {m m' : Machine} {j : Nat} : m.nextRunnable? = some j → m.activate j = (.ok (), m') →
      Searches m [(j, .ok ())] true m'
  /-- The next job `j` cannot be booted and is given up, and the loop starts over. -/
  | fails {m m₁ m' : Machine} {j : Nat} {e : LoadError} {found : Bool}
      {tried : List (Nat × Except LoadError Unit)} : m.nextRunnable? = some j →
      m.activate j = (.error e, m₁) → Searches (m₁.giveUp j e) tried found m' →
      Searches m ((j, .error e) :: tried) found m'

/-- What a search from `m` to `m'` comes to that has `tried` these jobs. -/
structure SearchEnds (m : Machine) (tried : List (Nat × Except LoadError Unit)) (found : Bool)
    (m' : Machine) : Prop where
  order : tried.map Prod.fst <+: m.candidates
  finds : found = true → ∃ failed j, tried = failed ++ [(j, .ok ())] ∧
    (∀ a ∈ failed, ∃ e, a.2 = .error e) ∧ j < m.jobs.size ∧ m'.runs j = true ∧
    (m'.job j).life = .runnable
  exhausted : found = false → tried.map Prod.fst = m.candidates ∧
    (∀ a ∈ tried, ∃ e, a.2 = .error e) ∧ m'.hardware.cpu = m.hardware.cpu ∧
    m'.control = m.control
  failed : ∀ k e, (k, .error e) ∈ tried →
    (m'.job k).life = .finished ∧ (m'.job k).outcome? = some .bootFailed
  others : ∀ k, (∀ e, (k, .error e) ∉ tried) →
    (m'.job k).life = (m.job k).life ∧ (m'.job k).outcome? = (m.job k).outcome?

/-- The next job `j` is the first of the candidates. -/
theorem exists_candidates_eq_cons (h : m.nextRunnable? = some j) :
    (∃ js, m.candidates = j :: js) ∧ j < m.jobs.size ∧ (m.job j).life = .runnable := by
  rw [nextRunnable?_eq_head?, List.head?_eq_some_iff] at h
  obtain ⟨js, hjs⟩ := h
  have hmem : j ∈ m.candidates := hjs ▸ List.mem_cons_self
  exact ⟨⟨js, hjs⟩, lt_of_mem_candidates hmem, (mem_candidates.1 hmem).2⟩

theorem SearchEnds.of_exhausted (h : m.nextRunnable? = none) : m.SearchEnds [] false m where
  order := List.nil_prefix
  finds hfound := by simp at hfound
  exhausted _ := by
    rw [nextRunnable?_eq_head?, List.head?_eq_none_iff] at h
    exact ⟨h.symm, by simp, rfl, rfl⟩
  failed k e hmem := by simp at hmem
  others _ _ := ⟨rfl, rfl⟩

theorem SearchEnds.of_finds (hnext : m.nextRunnable? = some j)
    (hact : m.activate j = (.ok (), m')) : m.SearchEnds [(j, .ok ())] true m' := by
  obtain ⟨⟨js, hjs⟩, hj, hlife⟩ := exists_candidates_eq_cons hnext
  obtain ⟨hruns, hstanding⟩ := standing_of_activate hj hlife hact
  constructor
  case order =>
    rw [hjs]
    exact ⟨js, rfl⟩
  case finds => exact fun _ => ⟨[], j, rfl, by simp, hj, hruns, (hstanding j).1.trans hlife⟩
  case exhausted => exact fun hfound => by simp at hfound
  case failed => exact fun k e hmem => by simp at hmem
  case others => exact fun k _ => hstanding k

/-- An attempt at job `j` that fails comes before those that the search makes afterwards. -/
theorem SearchEnds.of_fails {e : LoadError} {found : Bool}
    {tried : List (Nat × Except LoadError Unit)} (hloadable : m.Loadable)
    (hnext : m.nextRunnable? = some j) (hact : m.activate j = (.error e, m₁))
    (h : (m₁.giveUp j e).SearchEnds tried found m') :
    m.SearchEnds ((j, .error e) :: tried) found m' := by
  obtain ⟨⟨js, hjs⟩, hj, _⟩ := exists_candidates_eq_cons hnext
  obtain ⟨hconfines, hown⟩ := abandoned_of_activate hloadable hj hact
  have hrest := candidates_of_abandoned hjs hconfines hown
  -- the job is not tried again, so that it stays as it was when it was given up
  have hnot : ∀ e', (j, .error e') ∉ tried := by
    intro e' hmem
    have hin := h.order.subset (List.mem_map_of_mem (f := Prod.fst) hmem)
    have hlife := (mem_candidates.1 hin).2
    rw [hown] at hlife
    simp [Job.abandoned] at hlife
  constructor
  case order =>
    rw [hjs, List.map_cons, List.prefix_cons_inj]
    exact hrest ▸ h.order
  case finds =>
    intro hfound
    obtain ⟨failed, i, rfl, hfailed, hi, hruns, hlife⟩ := h.finds hfound
    refine ⟨(j, .error e) :: failed, i, rfl, fun a ha => ?_, hconfines.size ▸ hi, hruns, hlife⟩
    rcases List.mem_cons.1 ha with rfl | hmem
    · exact ⟨e, rfl⟩
    · exact hfailed a hmem
  case exhausted =>
    intro hfound
    obtain ⟨hall, hfailed, hcpu, hcontrol⟩ := h.exhausted hfound
    refine ⟨?_, fun a ha => ?_, hcpu.trans hconfines.cpu, hcontrol.trans hconfines.control⟩
    · rw [List.map_cons, hall, hrest, hjs]
    · rcases List.mem_cons.1 ha with rfl | hmem
      · exact ⟨e, rfl⟩
      · exact hfailed a hmem
  case failed =>
    intro k e' hmem
    rcases List.mem_cons.1 hmem with heq | hmem'
    · obtain rfl : k = j := congrArg Prod.fst heq
      obtain ⟨hlife, houtcome⟩ := h.others k hnot
      rw [hlife, houtcome, hown]
      exact ⟨rfl, rfl⟩
    · exact h.failed k e' hmem'
  case others =>
    intro k hk
    have hkj : k ≠ j := by
      rintro rfl
      exact hk e List.mem_cons_self
    obtain ⟨hlife, houtcome⟩ := h.others k fun e' hmem => hk e' (List.mem_cons_of_mem _ hmem)
    rw [hlife, houtcome, hconfines.job k hkj]
    exact ⟨rfl, rfl⟩

/-- Whatever the loop has `tried`, it ends as a search does. -/
theorem Searches.ends {found : Bool} {tried : List (Nat × Except LoadError Unit)}
    (h : Searches m tried found m') (hloadable : m.Loadable) : m.SearchEnds tried found m' := by
  -- one case for each way in which the loop goes on, which keep the images within their limit
  induction h with
  | exhausted hnext => exact .of_exhausted hnext
  | finds hnext hact => exact .of_finds hnext hact
  | fails hnext hact _ ih =>
    obtain ⟨_, hj, _⟩ := exists_candidates_eq_cons hnext
    obtain ⟨hconfines, hown⟩ := abandoned_of_activate hloadable hj hact
    exact .of_fails hloadable hnext hact (ih (hloadable.abandoned hconfines hown))

/-- An attempt at job `j` that succeeds is the last one. -/
theorem SearchEnds.last {found : Bool} {tried : List (Nat × Except LoadError Unit)}
    (h : m.SearchEnds tried found m') (hmem : (j, .ok ()) ∈ tried) :
    found = true ∧ m'.runs j = true ∧ ∃ failed, tried = failed ++ [(j, .ok ())] ∧
      ∀ a ∈ failed, ∃ e, a.2 = .error e := by
  have hne : ∀ e : LoadError, (j, (.ok () : Except LoadError Unit)).2 ≠ .error e := by simp
  cases found with
  | false =>
    obtain ⟨_, hfailed, _⟩ := h.exhausted rfl
    obtain ⟨e, he⟩ := hfailed _ hmem
    exact absurd he (hne e)
  | true =>
    obtain ⟨failed, i, rfl, hfailed, _, hruns, _⟩ := h.finds rfl
    rcases List.mem_append.1 hmem with hbefore | hlast
    · obtain ⟨e, he⟩ := hfailed _ hbefore
      exact absurd he (hne e)
    · obtain rfl : j = i := congrArg Prod.fst (List.mem_singleton.1 hlast)
      exact ⟨rfl, hruns, failed, rfl, hfailed⟩

/-- A search that finds nothing leaves no job `k` that can run. -/
theorem SearchEnds.not_runnable {tried : List (Nat × Except LoadError Unit)}
    (h : m.SearchEnds tried false m') (hk : k < m.jobs.size) : (m'.job k).life ≠ .runnable := by
  intro hlife
  have huntried : ∀ e, (k, .error e) ∉ tried := by
    intro e hmem
    rw [(h.failed k e hmem).1] at hlife
    exact absurd hlife (by decide)
  obtain ⟨hall, hfailed, _⟩ := h.exhausted rfl
  -- the job could run before the search, so that it was tried
  have hcandidate : k ∈ m.candidates :=
    mem_candidates.2 ⟨mem_around hk, (h.others k huntried).1 ▸ hlife⟩
  rw [← hall] at hcandidate
  obtain ⟨⟨i, res⟩, hmem, rfl⟩ := List.mem_map.1 hcandidate
  obtain ⟨e, rfl⟩ := hfailed _ hmem
  exact huntried e hmem

/-- `rotateAmong n` is the loop if it may try as many jobs as can run. -/
theorem searches_rotateAmong {n : Nat} (hloadable : m.Loadable)
    (hcount : m.candidates.length ≤ n) :
    ∃ tried, Searches m tried (m.rotateAmong n).1 (m.rotateAmong n).2 := by
  -- every attempt that fails leaves one candidate less, and one attempt less to make
  induction n generalizing m with
  | zero =>
    have hnil := List.eq_nil_of_length_eq_zero (Nat.le_zero.1 hcount)
    exact ⟨[], .exhausted (by rw [nextRunnable?_eq_head?, hnil]; rfl)⟩
  | succ n ih =>
    unfold rotateAmong
    cases hnext : m.nextRunnable? with
    | none => exact ⟨[], .exhausted hnext⟩
    | some j =>
      simp only
      rcases hact : m.activate j with ⟨res, m₁⟩
      match res with
      | .ok () => exact ⟨_, .finds hnext hact⟩
      | .error e =>
        obtain ⟨⟨js, hjs⟩, hj, _⟩ := exists_candidates_eq_cons hnext
        obtain ⟨hconfines, hown⟩ := abandoned_of_activate hloadable hj hact
        have hfewer : (m₁.giveUp j e).candidates.length ≤ n := by
          rw [candidates_of_abandoned hjs hconfines hown]
          rw [hjs, List.length_cons] at hcount
          omega
        obtain ⟨tried, hsearch⟩ := ih (hloadable.abandoned hconfines hown) hfewer
        exact ⟨_, .fails hnext hact hsearch⟩

/-- `rotate` is the loop without a count. -/
theorem searches_rotate (hloadable : m.Loadable) :
    ∃ tried, Searches m tried m.rotate.1 m.rotate.2 :=
  searches_rotateAmong hloadable length_candidates_le

/-- `rotate` ends after at most one attempt for each job, and tries the jobs that can run in their
order around the table. It is successful just if one attempt is: then this job runs, those before it
are over because they cannot be booted, and no other job has changed its life or its outcome. It
fails just if no job is left that can run: then the processor and what the scheduler remembers are
as they were. -/
theorem rotate_spec {found : Bool} (hloadable : m.Loadable) (hrotate : m.rotate = (found, m')) :
    ∃ tried, Searches m tried found m' ∧ tried.length ≤ m.jobs.size ∧
      tried.map Prod.fst <+: m.candidates ∧
      (found = true ↔ ∃ j, (j, .ok ()) ∈ tried) ∧
      (∀ j, (j, .ok ()) ∈ tried → m'.runs j = true ∧ ∃ failed later,
        tried = failed ++ [(j, .ok ())] ∧ m.candidates = failed.map Prod.fst ++ j :: later ∧
        ∀ a ∈ failed, ∃ e, a.2 = .error e) ∧
      (∀ k e, (k, .error e) ∈ tried →
        (m'.job k).life = .finished ∧ (m'.job k).outcome? = some .bootFailed) ∧
      (∀ k, (∀ e, (k, .error e) ∉ tried) →
        (m'.job k).life = (m.job k).life ∧ (m'.job k).outcome? = (m.job k).outcome?) ∧
      (found = false ↔ ∀ k < m.jobs.size, (m'.job k).life ≠ .runnable) ∧
      (found = false → tried.map Prod.fst = m.candidates ∧ m'.hardware.cpu = m.hardware.cpu ∧
        m'.current = m.current ∧ m'.idle = m.idle) := by
  -- all parts are read off what a search comes to
  obtain ⟨tried, hsearch⟩ := searches_rotate hloadable
  rw [hrotate] at hsearch
  have hends := hsearch.ends hloadable
  refine ⟨tried, hsearch, ?_, hends.order, ?_, ?_, hends.failed, hends.others, ?_, ?_⟩
  · have hlength := hends.order.length_le
    rw [List.length_map] at hlength
    exact hlength.trans length_candidates_le
  · constructor
    · intro hfound
      -- a search that finds a job has tried it last
      obtain ⟨failed, j, rfl, _⟩ := hends.finds hfound
      exact ⟨j, by simp⟩
    · rintro ⟨j, hmem⟩
      exact (hends.last hmem).1
  · intro j hmem
    obtain ⟨_, hruns, failed, rfl, hfailed⟩ := hends.last hmem
    obtain ⟨later, hlater⟩ := hends.order
    refine ⟨hruns, failed, later, rfl, ?_, hfailed⟩
    rw [← hlater]
    simp
  · constructor
    · rintro rfl k hk
      exact hends.not_runnable hk
    · intro hnone
      cases hfound : found with
      | false => rfl
      | true =>
        obtain ⟨_, j, _, _, hj, _, hlife⟩ := hends.finds hfound
        exact absurd hlife (hnone j hj)
  · intro hfound
    obtain ⟨hall, _, hcpu, hcontrol⟩ := hends.exhausted hfound
    exact ⟨hall, hcpu, congrArg Control.current hcontrol, congrArg Control.idle hcontrol⟩

/-- After the start of three jobs the second one is tried in vain, and the third one is found. -/
theorem rotate_spec_turn :
    ∃ tried, Searches turnFirst tried true turnFirst.rotate.2 ∧ (2, .ok ()) ∈ tried ∧
      turnFirst.rotate.2.runs 2 = true ∧
      (turnFirst.rotate.2.job 1).outcome? = some .bootFailed := by
  have hloadable : turnFirst.Loadable := by
    show ∀ j < turnFirst.jobs.size, (turnFirst.job j).image.size ≤ imageLimit
    decide +kernel
  have hstate : turnFirst.rotate.1 = true ∧ turnFirst.rotate.2.current = 2 ∧
      (turnFirst.rotate.2.job 1).outcome? = some .bootFailed := by
    decide +kernel
  obtain ⟨htrue, hcurrent, houtcome⟩ := hstate
  have hrotate : turnFirst.rotate = (true, turnFirst.rotate.2) := Prod.ext htrue rfl
  obtain ⟨tried, hsearch, -, -, hfound, hlast, -⟩ := rotate_spec hloadable hrotate
  obtain ⟨j, hmem⟩ := hfound.1 rfl
  obtain ⟨hruns, -⟩ := hlast j hmem
  obtain rfl : j = 2 := (runs_eq_true_iff.1 hruns).2.symm.trans hcurrent
  exact ⟨tried, hsearch, hmem, hruns, houtcome⟩

end Machine

end BatchMachine
