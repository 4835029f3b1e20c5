import BatchMachine.Proofs.ReaderWalks
import BatchMachine.Proofs.SectionCuts

/-!
# Searches for input that find none

A search for the input of a segment that has none goes on to the next job, and leaves the part of
the segment as it was. In the code of a segment this has two consequences. The code that has not
been read is lost. And a search for the next code finds the code at hand, again and again, so that
a walk from section to section never leaves a segment without input.

* `Reader.seekInput_eq_false_iff`: what a search that finds nothing does.
* `Reader.answers`: what a reader answers to some calls, one after the other.
* `Reader.Barren`: nothing is left to be read before the next job.
* `Reader.answers_after_failed_search`: the answers after such a search are those of a reader whose
  code has been passed over.
* `Rounds`: a walk from section to section.
* `rounds_end_iff`: when it ends.
-/

namespace BatchMachine.JobText

theorem Line.isControl_of_isJob {line : Line} (h : line.isJob = true) : line.isControl = true := by
  unfold isJob hasKeyword at h
  simp only [Bool.and_eq_true] at h
  exact h.1

theorem plainLines_jobLines (lines : List Line) : plainLines (jobLines lines) = [] := by
  cases hjobs : jobLines lines with
  | nil => rfl
  | cons line rest =>
    exact plainLines_of_control (Line.isControl_of_isJob (isJob_of_jobLines hjobs))

theorem plainLines_fromControl (lines : List Line) : plainLines (fromControl lines) = [] := by
  cases hcontrol : fromControl lines with
  | nil => rfl
  | cons line rest =>
    have hhead := List.head?_dropWhile_not (fun l : Line => !l.isControl) lines
    rw [show lines.dropWhile (fun l => !l.isControl) = line :: rest from hcontrol] at hhead
    exact plainLines_of_control (by simpa using hhead)

namespace Reader

variable {r r' : Reader} {call : Call}

theorem no_input_jobLines (lines : List Line) : inputLines? (jobLines lines) = none := by
  cases hjobs : jobLines lines with
  | nil => rfl
  | cons line rest =>
    have hjob := isJob_of_jobLines hjobs
    simp [inputLines?, hjob, Line.isRun_eq_false hjob]

/-- `seekInput` finds nothing if there is no input section before the next job, and then the reader
`r` stands before that job. -/
theorem seekInput_eq_false_iff :
    r.seekInput = (.ok false, r') ↔
      r.part ≠ .input ∧ inputLines? r.rest = none ∧ r' = r.toNextJob := by
  constructor
  · intro h
    have hpart : r.part ≠ .input := fun hpart => by simp [seekInput, hpart] at h
    rcases seekInput_cases hpart with ⟨hnone, hseek⟩ | ⟨rest, _, hseek, _⟩
    · rw [hseek] at h
      cases h
      exact ⟨hpart, hnone, rfl⟩
    · simp [hseek] at h
  · rintro ⟨hpart, hnone, rfl⟩
    rcases seekInput_cases hpart with ⟨_, hseek⟩ | ⟨rest, hsome, _, _⟩
    · exact hseek
    · simp [hnone] at hsome

@[simp]
theorem ahead_toNextJob (r : Reader) : r.toNextJob.ahead = r.ahead :=
  List.dropWhile_idempotent _ _

@[simp]
theorem toNextJob_toNextJob (r : Reader) : r.toNextJob.toNextJob = r.toNextJob := by
  rw [toNextJob, ahead_toNextJob]
  rfl

/-! ## What is lost -/

/-- What a reader answers to a list of calls, one after the other. -/
def answers (r : Reader) : List Call → List (Except ReadError Answer)
  | [] => []
  | call :: calls => (r.perform call).1 :: (r.perform call).2.answers calls

/-- The lines of code that `r` has not read yet. -/
def unreadCode (r : Reader) : List Line :=
  if r.part = .code then plainLines r.rest else []

/-- `r` with the code that it has not read yet passed over. -/
def skipCode (r : Reader) : Reader :=
  if r.part = .code then { r with rest := fromControl r.rest } else r

/-- Nothing is left for `r` to be read before the next job. -/
structure Barren (r : Reader) : Prop where
  part : r.part ≠ .input
  code : r.unreadCode = []
  input : inputLines? r.rest = none

/-- To `call` a reader `r` answers as it would before the next job, and after that it is there, or
it still has nothing to read. -/
def Indifferent (r : Reader) (call : Call) : Prop :=
  (r.toNextJob.perform call).1 = (r.perform call).1 ∧
    ((r.toNextJob.perform call).2 = (r.perform call).2 ∨
      (r.perform call).2.Barren ∧
        (r.toNextJob.perform call).2 = (r.perform call).2.toNextJob)

/-- Before a job `r` has nothing to read, unless it is in an input section. -/
theorem barren_toNextJob (hpart : r.part ≠ .input) : r.toNextJob.Barren where
  part := hpart
  code := by
    unfold unreadCode
    split
    · exact plainLines_jobLines r.rest
    · rfl
  input := no_input_jobLines r.rest

theorem barren_skipCode (hpart : r.part ≠ .input) (hinput : inputLines? r.rest = none) :
    r.skipCode.Barren := by
  unfold skipCode
  split
  case isTrue hcode =>
    refine ⟨by simp [hcode], ?_, by rwa [inputLines?_fromControl]⟩
    rw [unreadCode, if_pos hcode]
    exact plainLines_fromControl r.rest
  case isFalse hcode => exact ⟨hpart, if_neg hcode, hinput⟩

theorem toNextJob_skipCode (r : Reader) : r.skipCode.toNextJob = r.toNextJob := by
  unfold skipCode
  split
  · simp [toNextJob, ahead, jobLines_fromControl]
  · rfl

theorem skipCode_of_unreadCode (h : r.unreadCode = []) : r.skipCode = r := by
  unfold unreadCode at h
  unfold skipCode
  split
  case isTrue hcode =>
    rw [if_pos hcode] at h
    have hsplit := List.takeWhile_append_dropWhile (p := fun l : Line => !l.isControl) (l := r.rest)
    rw [show r.rest.takeWhile (fun l => !l.isControl) = [] from h, List.nil_append] at hsplit
    rw [show fromControl r.rest = r.rest from hsplit]
  case isFalse => rfl

/-- In the code of a segment `seekCode` stays where it is. -/
theorem seekCode_of_code (hpart : r.part = .code) : r.seekCode = (.ok true, r) := by
  rw [seekCode, if_pos hpart]

/-- Before the first segment `fetchInstruction` reads from the segment that is entered for it. -/
theorem fetchInstruction_of_preamble (hpart : r.part = .preamble) :
    r.fetchInstruction = enter seekCode readInstruction r := by
  rw [fetchInstruction, hpart]

/-- After the code of a segment `fetchInstruction` gives no instruction. -/
theorem fetchInstruction_of_after (hcode : r.part ≠ .code) (hpreamble : r.part ≠ .preamble) :
    r.fetchInstruction = (.ok none, r) := by
  unfold fetchInstruction
  split
  case h_1 hpart => exact absurd hpart hcode
  case h_2 hpart => exact absurd hpart hpreamble
  case h_3 => rfl

/-- After the input of a segment `fetchInput` gives no word. -/
theorem fetchInput_of_afterInput (hpart : r.part = .afterInput) :
    r.fetchInput = (.ok none, r) := by
  rw [fetchInput, hpart]

/-- Outside of the code of a segment `seekCode` depends on the jobs ahead alone. -/
theorem seekCode_toNextJob (hpart : r.part ≠ .code) : r.toNextJob.seekCode = r.seekCode := by
  have hsame : (jobLines r.rest).dropWhile (fun l => !l.isJob) =
      r.rest.dropWhile fun l => !l.isJob := List.dropWhile_idempotent _ _
  unfold seekCode toNextJob ahead
  rw [if_neg hpart, if_neg hpart]
  simp only [hsame]

namespace Barren

theorem toNextJob (h : r.Barren) : r.toNextJob.Barren :=
  barren_toNextJob h.part

theorem seekInput (h : r.Barren) : r.seekInput = (.ok false, r.toNextJob) :=
  seekInput_eq_false_iff.2 ⟨h.part, h.input, rfl⟩

theorem fetchInstruction (h : r.Barren) (hcode : r.part = .code) :
    r.fetchInstruction = (.ok none, { r with part := .afterCode }) := by
  have hnone := h.code
  rw [unreadCode, if_pos hcode] at hnone
  rw [Reader.fetchInstruction, hcode]
  unfold readInstruction readLine takeLine
  cases hrest : r.rest with
  | nil => simp
  | cons line rest =>
    rw [hrest] at hnone
    cases hcontrol : line.isControl with
    | true => simp [hcontrol]
    | false => simp [plainLines_of_plain hcontrol] at hnone

theorem fetchInput (h : r.Barren) (hafter : r.part ≠ .afterInput) :
    r.fetchInput = (.ok none, r.toNextJob) := by
  have hseek : enter Reader.seekInput readInput r = (.ok none, r.toNextJob) := by
    rw [enter, h.seekInput]
  have hinput := h.part
  unfold Reader.fetchInput
  split
  case h_1 hpart => exact absurd hpart hinput
  case h_2 hpart => exact absurd hpart hafter
  case h_3 => exact hseek

theorem seekCode (h : r.Barren) : r.Indifferent .seekCode := by
  unfold Indifferent Reader.perform
  by_cases hcode : r.part = .code
  · have hcode' : r.toNextJob.part = .code := hcode
    rw [seekCode_of_code hcode, seekCode_of_code hcode']
    exact ⟨rfl, .inr ⟨h, rfl⟩⟩
  · rw [seekCode_toNextJob hcode]
    exact ⟨rfl, .inl rfl⟩

theorem instruction (h : r.Barren) : r.Indifferent .fetchInstruction := by
  have hpart : r.toNextJob.part = r.part := rfl
  unfold Indifferent Reader.perform
  by_cases hcode : r.part = .code
  · rw [h.fetchInstruction hcode, h.toNextJob.fetchInstruction (hpart.trans hcode)]
    exact ⟨rfl, .inr ⟨⟨by simp, by simp [unreadCode], h.input⟩, rfl⟩⟩
  by_cases hpreamble : r.part = .preamble
  · -- both enter the same segment
    rw [fetchInstruction_of_preamble hpreamble,
      fetchInstruction_of_preamble (hpart.trans hpreamble), enter, enter, seekCode_toNextJob hcode]
    exact ⟨rfl, .inl rfl⟩
  · rw [fetchInstruction_of_after hcode hpreamble,
      fetchInstruction_of_after (hpart ▸ hcode) (hpart ▸ hpreamble)]
    exact ⟨rfl, .inr ⟨h, rfl⟩⟩

theorem word (h : r.Barren) : r.Indifferent .fetchInput := by
  have hpart : r.toNextJob.part = r.part := rfl
  unfold Indifferent Reader.perform
  by_cases hafter : r.part = .afterInput
  · rw [fetchInput_of_afterInput hafter, fetchInput_of_afterInput (hpart.trans hafter)]
    exact ⟨rfl, .inr ⟨h, rfl⟩⟩
  · rw [h.fetchInput hafter, h.toNextJob.fetchInput (hpart ▸ hafter), toNextJob_toNextJob]
    exact ⟨rfl, .inl rfl⟩

/-- If `r` has nothing to read it is indifferent to every `call`. -/
theorem indifferent (h : r.Barren) (call : Call) : r.Indifferent call := by
  cases call with
  | seekCode => exact h.seekCode
  | seekInput =>
    unfold Indifferent Reader.perform
    rw [h.seekInput, h.toNextJob.seekInput, toNextJob_toNextJob]
    exact ⟨rfl, .inl rfl⟩
  | fetchInstruction => exact h.instruction
  | fetchInput => exact h.word

/-- So it goes on to answer to `calls` as it would before the next job. -/
theorem answers_toNextJob (h : r.Barren) (calls : List Call) :
    r.toNextJob.answers calls = r.answers calls := by
  induction calls generalizing r with
  | nil => rfl
  | cons call calls ih =>
    obtain ⟨hanswer, hsame | ⟨hbarren, hnext⟩⟩ := h.indifferent call
    · rw [Reader.answers, Reader.answers, hanswer, hsame]
    · rw [Reader.answers, Reader.answers, hanswer, hnext, ih hbarren]

end Barren

/-- A line of code that has not been read is an answer to come, until the code is passed over. -/
theorem answers_ne_of_unreadCode (h : r.unreadCode ≠ []) :
    r.toNextJob.answers [.fetchInstruction] ≠ r.answers [.fetchInstruction] := by
  have hcode : r.part = .code := by
    by_contra hcode
    exact h (if_neg hcode)
  rw [unreadCode, if_pos hcode] at h
  have hover := (barren_toNextJob (r := r) (by simp [hcode])).fetchInstruction hcode
  have hnone : r.toNextJob.answers [.fetchInstruction] = [.ok (.instruction none)] := by
    rw [answers, perform, hover]
    rfl
  rw [hnone]
  rcases fetchInstruction_cases hcode with
    ⟨hempty, _⟩ | ⟨line, lines, _, ⟨i, r₁, _, hfetch, _⟩ | ⟨e, r₁, _, hfetch⟩⟩
  · exact absurd hempty h
  · rw [answers, perform, hfetch]
    simp [Except.map]
  · rw [answers, perform, hfetch]
    simp [Except.map]

/-- After a search for input that has found nothing, the reader `r'` answers to every sequence of
calls as if the rest of the code at hand had been passed over. So what it answers to reads and to
searches for code is what `r` would have answered without the search if and only if no code was left
to be read. -/
theorem answers_after_failed_search (h : r.seekInput = (.ok false, r')) :
    (∀ calls, r'.answers calls = r.skipCode.answers calls) ∧
    ((∀ calls, Call.seekInput ∉ calls → r'.answers calls = r.answers calls) ↔
      r.unreadCode = []) := by
  obtain ⟨hpart, hinput, rfl⟩ := seekInput_eq_false_iff.1 h
  have hskips : ∀ calls, r.toNextJob.answers calls = r.skipCode.answers calls := fun calls => by
    rw [← toNextJob_skipCode, (barren_skipCode hpart hinput).answers_toNextJob]
  refine ⟨hskips, fun hsame => ?_, fun hcode calls _ => ?_⟩
  · by_contra hcode
    exact answers_ne_of_unreadCode hcode (hsame [.fetchInstruction] (by simp))
  · rw [hskips, skipCode_of_unreadCode hcode]

end Reader

/-- A job with a line of code, and a job after it. -/
def unreadText : String :=
  "$JOB a\n0\n$JOB b\n"

/-- The reader in the code of the first of them. -/
def unreadReader : Reader :=
  ((Reader.ofText "" unreadText).visitAll [.seekCode]).2

/-- The line of code is lost to a search for input. -/
theorem answers_after_failed_search_unread :
    unreadReader.seekInput = (.ok false, unreadReader.toNextJob) ∧
    (∀ calls, unreadReader.toNextJob.answers calls = unreadReader.skipCode.answers calls) ∧
    ((∀ calls, Call.seekInput ∉ calls →
        unreadReader.toNextJob.answers calls = unreadReader.answers calls) ↔
      unreadReader.unreadCode = []) := by
  have hsearch : unreadReader.seekInput = (.ok false, unreadReader.toNextJob) := by
    decide +kernel
  exact ⟨hsearch, Reader.answers_after_failed_search hsearch⟩

/-- Not every search for input that finds none leaves the later answers as they are: a `Walk`
without an error has come to the code of a segment, and after the search its instruction is not
read. -/
theorem failed_search_loses_code :
    ∃ visits r r', Walk (Reader.ofText "" unreadText) visits r ∧
      r.seekInput = (.ok false, r') ∧
      r.answers [.fetchInstruction] = [.ok (.instruction (some .nop))] ∧
      r'.answers [.fetchInstruction] = [.ok (.instruction none)] := by
  refine ⟨_, unreadReader, unreadReader.toNextJob,
    walk_visitAll (Reader.ofText "" unreadText) [.seekCode], ?_, ?_, ?_⟩ <;> decide +kernel

/-! ## Walking from section to section -/

/-- From one reader to another by rounds: a search for code that finds it and a search for input,
found or not. The `names` are those that the reader has after the searches for code. -/
inductive Rounds : Reader → List String → Reader → Prop
  | none {r : Reader} : Rounds r [] r
  | round {r r₁ r₂ r' : Reader} {found : Bool} {names : List String}
      (hcode : r.seekCode = (.ok true, r₁)) (hinput : r₁.seekInput = (.ok found, r₂))
      (hmore : Rounds r₂ names r') : Rounds r (r₁.name :: names) r'

namespace Rounds

variable {r r' r'' a b : Reader} {names names' : List String}

theorem trans (h : Rounds r names r') (h' : Rounds r' names' r'') :
    Rounds r (names ++ names') r'' := by
  induction h with
  | none => exact h'
  | round hcode hinput _ ih => exact .round hcode hinput (ih h')

/-- A walk that has ended with the reader `a` has had all the rounds that can be made from where it
started. -/
theorem isPrefix (h : Rounds r names a) (hend : a.seekCode.1 = .ok false)
    (h' : Rounds r names' b) : names' <+: names := by
  induction h generalizing names' with
  | none =>
    cases h' with
    | none => exact List.prefix_rfl
    | round hcode _ _ => simp [hcode] at hend
  | round hcode hinput _ ih =>
    cases h' with
    | none => exact List.nil_prefix
    | round hcode' hinput' hmore' =>
      -- both make the same first round
      rw [hcode] at hcode'
      cases hcode'
      rw [hinput] at hinput'
      cases hinput'
      exact List.cons_prefix_cons.2 ⟨rfl, ih hend hmore'⟩

end Rounds

/-- The walk has come to `r` in the code of a segment `name` without input. -/
structure Reader.IsStuck (r : Reader) (name : String) : Prop where
  part : r.part = .code
  input : inputLines? r.rest = none
  name : r.name = name

namespace Reader

variable {r : Reader} {name : String} {part : Line × List Line} {ps : List (Line × List Line)}

theorem IsStuck.seekCode (h : r.IsStuck name) : r.seekCode = (.ok true, r) :=
  seekCode_of_code h.part

/-- `n` further rounds do not leave the segment. -/
theorem IsStuck.rounds (h : r.IsStuck name) (n : Nat) :
    ∃ r', Rounds r (List.replicate n name) r' ∧ r'.IsStuck name := by
  induction n generalizing r with
  | zero => exact ⟨r, .none, h⟩
  | succ n ih =>
    have hpart : r.part ≠ .input := by simp [h.part]
    obtain ⟨r', hrounds, hstuck⟩ := @ih r.toNextJob ⟨h.part, no_input_jobLines _, h.name⟩
    refine ⟨r', ?_, hstuck⟩
    have hround := Rounds.round h.seekCode (seekInput_eq_false_iff.2 ⟨hpart, h.input, rfl⟩) hrounds
    rwa [h.name] at hround

/-- Where `seekCode` goes if there is a next part, with the name `name`. -/
theorem seekCode_of_parts (hpart : r.part ≠ .code) (hparts : parts r.rest = part :: ps)
    (hname : part.1.name? = some name) :
    ∃ rest, r.seekCode = (.ok true, ⟨r.origin, rest, .code, name, r.healthy⟩) ∧
      part.2 = rest.takeWhile (fun l => !l.isJob) ∧ parts rest = ps := by
  rcases seekCode_cases hpart with
    ⟨hnone, _⟩ | ⟨line, rest, hfirst, _, ⟨hunnamed, _⟩ | ⟨name', hnamed, hseek⟩⟩
  · simp [hnone] at hparts
  · rw [hfirst] at hparts
    cases hparts
    simp [hunnamed] at hname
  · rw [hfirst] at hparts
    cases hparts
    obtain rfl : name' = name := Option.some.inj (hnamed.symm.trans hname)
    exact ⟨rest, hseek, rfl, rfl⟩

/-- Outside of the code `seekCode` finds no further segment when no further job is ahead. -/
theorem seekCode_of_no_parts (hpart : r.part ≠ .code) (hparts : parts r.rest = []) :
    r.seekCode.1 = .ok false := by
  rcases seekCode_cases hpart with ⟨_, hseek⟩ | ⟨line, rest, hfirst, _⟩
  · rw [hseek]
  · simp [hparts] at hfirst

/-- The part of `lines` that a reader has entered has input if there is input before the next
job. -/
theorem any_isRun_takeWhile (lines : List Line) :
    (lines.takeWhile fun l => !l.isJob).any Line.isRun = (inputLines? lines).isSome := by
  have hjob : ∀ l ∈ lines.takeWhile (fun l => !l.isJob), l.isJob = false := fun l hl => by
    simpa using List.mem_takeWhile_imp hl
  rw [Bool.eq_iff_iff, ← inputLines?_isSome_iff hjob, inputLines?_takeWhile]

/-- A round that passes a segment `name` with input ends before the next job. -/
theorem round_of_input (hpart : r.part ≠ .code) (hparts : parts r.rest = part :: ps)
    (hname : part.1.name? = some name) (hinput : part.2.any Line.isRun = true) :
    ∃ r', Rounds r [name] r' ∧ r'.part ≠ .code ∧ parts r'.rest = ps := by
  obtain ⟨rest, hcode, hlines, rfl⟩ := seekCode_of_parts hpart hparts hname
  rw [hlines, any_isRun_takeWhile] at hinput
  rcases @seekInput_cases ⟨r.origin, rest, .code, name, r.healthy⟩ (by simp) with
    ⟨hnone, _⟩ | ⟨rest', _, hfound, hahead⟩
  · simp [hnone] at hinput
  · refine ⟨_, .round hcode hfound .none, by simp, ?_⟩
    rw [← parts_jobLines rest', hahead]
    exact parts_jobLines rest

/-- A round that comes to a segment `name` without input does not leave it. -/
theorem round_of_no_input (hpart : r.part ≠ .code) (hparts : parts r.rest = part :: ps)
    (hname : part.1.name? = some name) (hinput : part.2.any Line.isRun = false) :
    ∃ r', Rounds r [name] r' ∧ r'.IsStuck name := by
  obtain ⟨rest, hcode, hlines, _⟩ := seekCode_of_parts hpart hparts hname
  rw [hlines, any_isRun_takeWhile, Option.isSome_eq_false_iff, Option.isNone_iff_eq_none] at hinput
  have hsearch := (@seekInput_eq_false_iff ⟨r.origin, rest, .code, name, r.healthy⟩ _).2
    ⟨by simp, hinput, rfl⟩
  exact ⟨_, .round hcode hsearch .none, rfl, no_input_jobLines _, rfl⟩

/-- The parts `before`, which have input, are passed one by one. -/
theorem rounds_of_input {before : List (Line × List Line)} (hpart : r.part ≠ .code)
    (hparts : parts r.rest = before ++ ps) (hnames : ∀ p ∈ before, p.1.name?.isSome = true)
    (hinput : ∀ p ∈ before, p.2.any Line.isRun = true) :
    ∃ names r', Rounds r names r' ∧ names.map some = before.map (fun p => p.1.name?) ∧
      r'.part ≠ .code ∧ parts r'.rest = ps := by
  induction before generalizing r with
  | nil => exact ⟨[], r, .none, rfl, hpart, hparts⟩
  | cons p before ih =>
    obtain ⟨name, hname⟩ := Option.isSome_iff_exists.1 (hnames p List.mem_cons_self)
    obtain ⟨r₁, hround, hpart₁, hparts₁⟩ :=
      round_of_input hpart hparts hname (hinput p List.mem_cons_self)
    obtain ⟨names, r', hrounds, hall, hpart', hparts'⟩ := ih hpart₁ hparts₁
      (fun p hp => hnames p (List.mem_cons_of_mem _ hp))
      (fun p hp => hinput p (List.mem_cons_of_mem _ hp))
    exact ⟨name :: names, r', hround.trans hrounds, by simp [hall, hname], hpart', hparts'⟩

end Reader

/-- The `parts` of `lines` start with those of them that start a job. -/
theorem map_name?_parts (lines : List Line) :
    (parts lines).map (fun p => p.1.name?) = (lines.filter Line.isJob).map Line.name? := by
  induction lines with
  | nil => rfl
  | cons line lines ih =>
    rw [parts]
    cases hjob : line.isJob with
    | true => simp [hjob, ih]
    | false => simpa [hjob] using ih

/-- If some of the parts `ps` have no input section, then one of them is the first. -/
theorem exists_first_without_input {ps : List (Line × List Line)}
    (h : ¬∀ p ∈ ps, p.2.any Line.isRun = true) :
    ∃ before part after, ps = before ++ part :: after ∧
      (∀ p ∈ before, p.2.any Line.isRun = true) ∧ part.2.any Line.isRun = false := by
  have hfound : (ps.find? fun p => !p.2.any Line.isRun).isSome = true := by
    simpa [List.find?_isSome] using h
  obtain ⟨part, hpart⟩ := Option.isSome_iff_exists.1 hfound
  obtain ⟨hnot, before, after, hparts, hbefore⟩ := List.find?_eq_some_iff_append.1 hpart
  exact ⟨before, part, after, hparts, by simpa using hbefore, by simpa using hnot⟩

section Walks

variable {origin text : String} {part : Line × List Line} {before after : List (Line × List Line)}

/-- The parts of `text` start with named lines if all `$JOB` lines are named. -/
theorem isSome_name?_of_mem_parts
    (hnames : ∀ l ∈ linesOf text, l.isJob = true → l.name?.isSome = true)
    (hpart : part ∈ parts (linesOf text)) : part.1.name?.isSome = true :=
  hnames _ (of_mem_parts hpart).1 (of_mem_parts hpart).2.1

/-- A walk through segments with input comes to the end of `text`, with all of their names. -/
theorem exists_rounds_to_end (origin : String)
    (hnames : ∀ l ∈ linesOf text, l.isJob = true → l.name?.isSome = true)
    (hinput : ∀ part ∈ parts (linesOf text), part.2.any Line.isRun = true) :
    ∃ names r, Rounds (Reader.ofText origin text) names r ∧ r.seekCode.1 = .ok false ∧
      names.map some = ((linesOf text).filter Line.isJob).map Line.name? := by
  obtain ⟨names, r, hrounds, hall, hpart, hparts⟩ :=
    @Reader.rounds_of_input (Reader.ofText origin text) [] (parts (linesOf text))
      (by simp [Reader.ofText]) (by rw [List.append_nil]; rfl)
      (fun _ hp => isSome_name?_of_mem_parts hnames hp) hinput
  rw [map_name?_parts] at hall
  exact ⟨names, r, hrounds, Reader.seekCode_of_no_parts hpart hparts, hall⟩

/-- A walk does not leave `part`, the first segment without input. -/
theorem exists_rounds_of_no_input (origin : String)
    (hnames : ∀ l ∈ linesOf text, l.isJob = true → l.name?.isSome = true)
    (hparts : parts (linesOf text) = before ++ part :: after)
    (hbefore : ∀ p ∈ before, p.2.any Line.isRun = true)
    (hpart : part.2.any Line.isRun = false) :
    ∃ names name, names.map some = before.map (fun p => p.1.name?) ∧
      part.1.name? = some name ∧
      ∀ n, ∃ r, Rounds (Reader.ofText origin text) (names ++ List.replicate (n + 1) name) r ∧
        r.seekCode.1 = .ok true := by
  have hnamed : ∀ p ∈ before ++ part :: after, p.1.name?.isSome = true := fun p hp =>
    isSome_name?_of_mem_parts hnames (hparts ▸ hp)
  obtain ⟨name, hname⟩ := Option.isSome_iff_exists.1 (hnamed part (by simp))
  obtain ⟨names, r₁, hrounds, hall, hpart₁, hparts₁⟩ :=
    @Reader.rounds_of_input (Reader.ofText origin text) (part :: after) before
      (by simp [Reader.ofText]) hparts (fun p hp => hnamed p (by simp [hp])) hbefore
  obtain ⟨r₂, hround, hstuck⟩ := Reader.round_of_no_input hpart₁ hparts₁ hname hpart
  refine ⟨names, name, hall, hname, fun n => ?_⟩
  obtain ⟨r₃, hmore, hstuck₃⟩ := hstuck.rounds n
  exact ⟨r₃, hrounds.trans (hround.trans hmore), by rw [hstuck₃.seekCode]⟩

/-- So a walk that ends has met no segment without input. -/
theorem any_isRun_of_rounds {names : List String} {r : Reader}
    (hnames : ∀ l ∈ linesOf text, l.isJob = true → l.name?.isSome = true)
    (hrounds : Rounds (Reader.ofText origin text) names r) (hend : r.seekCode.1 = .ok false) :
    ∀ part ∈ parts (linesOf text), part.2.any Line.isRun = true := by
  by_contra hsome
  obtain ⟨before, part, after, hparts, hbefore, hpart⟩ := exists_first_without_input hsome
  -- the walk stays in that segment, so it has more rounds than it has had
  obtain ⟨names', name, _, _, htrapped⟩ :=
    exists_rounds_of_no_input origin hnames hparts hbefore hpart
  obtain ⟨r', hrounds', _⟩ := htrapped names.length
  have hlength := (hrounds.isPrefix hend hrounds').length_le
  rw [List.length_append, List.length_replicate] at hlength
  omega

/-- If all jobs of `text` have names, then the walk from section to section through the text comes
to an end if and only if every segment has an input section. A walk that ends has met every job once
and in order. A walk that does not end meets the jobs up to the first one without an input section,
and then this one in every further round. -/
theorem rounds_end_iff
    (hnames : ∀ l ∈ linesOf text, l.isJob = true → l.name?.isSome = true) :
    ((∃ names r, Rounds (Reader.ofText origin text) names r ∧ r.seekCode.1 = .ok false) ↔
      ∀ part ∈ parts (linesOf text), part.2.any Line.isRun = true) ∧
    (∀ names r, Rounds (Reader.ofText origin text) names r → r.seekCode.1 = .ok false →
      names.map some = ((linesOf text).filter Line.isJob).map Line.name?) ∧
    ∀ before part after, parts (linesOf text) = before ++ part :: after →
      (∀ p ∈ before, p.2.any Line.isRun = true) → part.2.any Line.isRun = false →
      ∃ names name, names.map some = before.map (fun p => p.1.name?) ∧
        part.1.name? = some name ∧
        ∀ n, ∃ r, Rounds (Reader.ofText origin text) (names ++ List.replicate (n + 1) name) r ∧
          r.seekCode.1 = .ok true := by
  refine ⟨⟨?_, fun hinput => ?_⟩, fun names r hrounds hend => ?_,
    fun before part after => exists_rounds_of_no_input origin hnames⟩
  · rintro ⟨names, r, hrounds, hend⟩
    exact any_isRun_of_rounds hnames hrounds hend
  · obtain ⟨names, r, hrounds, hend, _⟩ := exists_rounds_to_end origin hnames hinput
    exact ⟨names, r, hrounds, hend⟩
  · obtain ⟨names', r', hrounds', hend', hall⟩ :=
      exists_rounds_to_end origin hnames (any_isRun_of_rounds hnames hrounds hend)
    -- two walks that have ended are the same
    have hle := (hrounds.isPrefix hend hrounds').length_le
    rw [(hrounds'.isPrefix hend' hrounds).eq_of_length_le hle]
    exact hall

end Walks

/-- Of the four jobs of a text the third has no input section, so the walk stays there. -/
theorem rounds_end_iff_mixed :
    (∀ l ∈ linesOf mixedText, l.isJob = true → l.name?.isSome = true) ∧
    ((∃ names r, Rounds (Reader.ofText "" mixedText) names r ∧ r.seekCode.1 = .ok false) ↔
      ∀ part ∈ parts (linesOf mixedText), part.2.any Line.isRun = true) ∧
    (∀ names r, Rounds (Reader.ofText "" mixedText) names r → r.seekCode.1 = .ok false →
      names.map some = ((linesOf mixedText).filter Line.isJob).map Line.name?) ∧
    ∀ before part after, parts (linesOf mixedText) = before ++ part :: after →
      (∀ p ∈ before, p.2.any Line.isRun = true) → part.2.any Line.isRun = false →
      ∃ names name, names.map some = before.map (fun p => p.1.name?) ∧
        part.1.name? = some name ∧
        ∀ n, ∃ r, Rounds (Reader.ofText "" mixedText) (names ++ List.replicate (n + 1) name) r ∧
          r.seekCode.1 = .ok true := by
  have hnames : ∀ l ∈ linesOf mixedText, l.isJob = true → l.name?.isSome = true := by
    decide +kernel
  exact ⟨hnames, rounds_end_iff hnames⟩

/-- Two jobs without input. -/
def noInputText : String :=
  "$JOB a\n0\n$JOB b\n0\n"

/-- Not every walk through a text of named jobs ends and meets each of them: this one meets the
first job as often as it likes, and never ends. -/
theorem walk_stays_in_segment :
    (∀ l ∈ linesOf noInputText, l.isJob = true → l.name?.isSome = true) ∧
    (∀ n, ∃ r, Rounds (Reader.ofText "" noInputText) (List.replicate (n + 1) "a") r) ∧
    ¬∃ names r, Rounds (Reader.ofText "" noInputText) names r ∧ r.seekCode.1 = .ok false := by
  have hnames : ∀ l ∈ linesOf noInputText, l.isJob = true → l.name?.isSome = true := by
    decide +kernel
  have hnone : ((parts (linesOf noInputText)).all fun p => !p.2.any Line.isRun) = true := by
    decide +kernel
  have hfirst : ((parts (linesOf noInputText)).head?.map fun p => p.1.name?) = some (some "a") := by
    decide +kernel
  cases hparts : parts (linesOf noInputText) with
  | nil => simp [hparts] at hfirst
  | cons part after =>
    rw [hparts] at hnone hfirst
    have hpart : part.2.any Line.isRun = false := by
      simpa using (List.all_eq_true.1 hnone) part List.mem_cons_self
    refine ⟨hnames, fun n => ?_, ?_⟩
    · obtain ⟨names, name, hall, hname, hrounds⟩ :=
        @exists_rounds_of_no_input noInputText part [] after "" hnames hparts (by simp) hpart
      obtain ⟨r, hrounds, _⟩ := hrounds n
      obtain rfl : names = [] := by simpa using hall
      obtain rfl : name = "a" := by simpa [hname] using hfirst
      exact ⟨r, hrounds⟩
    · rintro ⟨names, r, hrounds, hend⟩
      -- if the rounds came to an end every part would have its input
      have hinput := any_isRun_of_rounds hnames hrounds hend part (by simp [hparts])
      simp [hpart] at hinput

end BatchMachine.JobText
