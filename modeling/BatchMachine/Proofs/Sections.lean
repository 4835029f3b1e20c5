import Mathlib.Data.List.DropRight
import Mathlib.Data.List.Forall2
import BatchMachine.Device.Basic
import BatchMachine.Machine.Boot

/-!
# The sections of an object text

A reader goes through the sections of an object text line by line. What it has still to offer can
be told from the lines ahead of it: the input lines of the segment at hand, and the lines from the
next job on. Reading input takes the lines of the former one by one and leaves the latter alone.

* `Reader.unread`, `Reader.ahead`: what a reader has still to offer.
* `Reader.readWord_some`: what reading an input word does.
* `Holds`: the segments that lines hold.
* `Reader.holds_of_segments`: they are those that reading all segments gives.
* `Reader.nextImage_of_holds`, `Reader.holds_of_nextImage`: they are those that are loaded one by
  one.
-/

namespace BatchMachine.JobText

/-- The lines of the first input section among `lines` before the next job. -/
def sectionLines (lines : List Line) : List Line :=
  match lines.dropWhile fun l => !l.isRun && !l.isJob with
  | [] => []
  | line :: rest => if line.isRun then plainLines rest else []

/-- `lines` from the next one on that starts a job. -/
def jobLines (lines : List Line) : List Line :=
  lines.dropWhile fun l => !l.isJob

namespace Line

variable {line : Line}

/-- A `line` that starts a job or an input section is a control line. -/
theorem hasKeyword_eq_false (h : line.isControl = false) (keyword : String) :
    line.hasKeyword keyword = false := by
  simp [hasKeyword, h]

/-- A `line` that starts a job does not start an input section. -/
theorem isRun_eq_false (h : line.isJob = true) : line.isRun = false := by
  unfold isJob hasKeyword at h
  unfold isRun hasKeyword
  simp only [Bool.and_eq_true, beq_iff_eq] at h
  simp [h.2]

theorem isJob_eq_false_of_isRun (h : line.isRun = true) : line.isJob = false :=
  Bool.eq_false_iff.2 fun hjob => by simp [isRun_eq_false hjob] at h

end Line

variable {lines : List Line} {line : Line}

theorem jobLines_cons (h : line.isJob = false) : jobLines (line :: lines) = jobLines lines := by
  simp [jobLines, h]

theorem plainLines_of_control (h : line.isControl = true) : plainLines (line :: lines) = [] := by
  simp [plainLines, h]

theorem plainLines_of_plain (h : line.isControl = false) :
    plainLines (line :: lines) = line :: plainLines lines := by
  simp [plainLines, h]

theorem fromControl_of_control (h : line.isControl = true) :
    fromControl (line :: lines) = line :: lines := by
  simp [fromControl, h]

theorem fromControl_of_plain (h : line.isControl = false) :
    fromControl (line :: lines) = fromControl lines := by
  simp [fromControl, h]

/-- `fromControl`, which skips the code of a segment, does not skip the start of the next job. -/
theorem jobLines_fromControl (lines : List Line) :
    jobLines (fromControl lines) = jobLines lines := by
  induction lines with
  | nil => rfl
  | cons line lines ih =>
    by_cases hcontrol : line.isControl = true
    · simp [fromControl, hcontrol]
    · have hplain : line.isControl = false := by simpa using hcontrol
      rw [jobLines_cons (Line.hasKeyword_eq_false hplain _), ← ih]
      simp [fromControl, hplain]

/-- Looking for an input section among `lines` does not go past the next job. -/
theorem jobLines_dropWhile (lines : List Line) :
    jobLines (lines.dropWhile fun l => !l.isRun && !l.isJob) = jobLines lines := by
  induction lines with
  | nil => rfl
  | cons line lines ih =>
    by_cases hstop : (!line.isRun && !line.isJob) = true
    · rw [List.dropWhile_cons, if_pos hstop, ih, jobLines_cons]
      simp only [Bool.and_eq_true, Bool.not_eq_true'] at hstop
      exact hstop.2
    · rw [List.dropWhile_cons, if_neg hstop]

/-- Looking for an input section among `lines` does not go past the start of one. -/
theorem sectionLines_dropWhile (lines : List Line) :
    sectionLines (lines.dropWhile fun l => !l.isRun && !l.isJob) = sectionLines lines := by
  unfold sectionLines
  rw [List.dropWhile_idempotent]

/-- `parts` does not count the lines before the first part. -/
theorem parts_jobLines (lines : List Line) : parts (jobLines lines) = parts lines := by
  induction lines with
  | nil => rfl
  | cons line lines ih =>
    cases hjob : line.isJob with
    | true => simp [jobLines, hjob]
    | false =>
      rw [jobLines_cons hjob, ih, parts, hjob]
      rfl

theorem isJob_of_jobLines {line : Line} {lines rest : List Line}
    (h : jobLines lines = line :: rest) : line.isJob = true := by
  have hhead := List.head?_dropWhile_not (fun l : Line => !l.isJob) lines
  rw [show lines.dropWhile (fun l => !l.isJob) = line :: rest from h] at hhead
  simpa using hhead

/-- The next `line` that starts a job starts the first part. -/
theorem parts_of_jobLines {line : Line} {lines rest : List Line}
    (h : jobLines lines = line :: rest) :
    parts lines = (line, rest.takeWhile fun l => !l.isJob) :: parts rest := by
  rw [← parts_jobLines lines, h, parts, if_pos (isJob_of_jobLines h)]

/-- Each `part` of `lines` is made of some of them, and only its first line starts a job. -/
theorem of_mem_parts {part : Line × List Line} {lines : List Line} (h : part ∈ parts lines) :
    part.1 ∈ lines ∧ part.1.isJob = true ∧ ∀ l ∈ part.2, l ∈ lines ∧ l.isJob = false := by
  induction lines with
  | nil => simp [parts] at h
  | cons line lines ih =>
    have hlater : part ∈ parts lines → part.1 ∈ line :: lines ∧ part.1.isJob = true ∧
        ∀ l ∈ part.2, l ∈ line :: lines ∧ l.isJob = false := fun hmem =>
      let ⟨hfirst, hjob, hrest⟩ := ih hmem
      ⟨List.mem_cons_of_mem _ hfirst, hjob,
        fun l hl => ⟨List.mem_cons_of_mem _ (hrest l hl).1, (hrest l hl).2⟩⟩
    rw [parts] at h
    split at h
    case isTrue hjob =>
      rcases List.mem_cons.1 h with rfl | hmem
      · refine ⟨List.mem_cons_self, hjob, fun l hl => ⟨?_, ?_⟩⟩
        · exact List.mem_cons_of_mem _ ((List.takeWhile_sublist _).subset hl)
        · simpa using List.mem_takeWhile_imp hl
      · exact hlater hmem
    case isFalse => exact hlater h

/-- The code of a part, which `plainLines` gives, ends before the next part. -/
theorem plainLines_takeWhile (lines : List Line) :
    plainLines (lines.takeWhile fun l => !l.isJob) = plainLines lines := by
  induction lines with
  | nil => rfl
  | cons line lines ih =>
    by_cases hcontrol : line.isControl = true
    · rw [plainLines_of_control hcontrol, List.takeWhile_cons]
      split
      · exact plainLines_of_control hcontrol
      · rfl
    · have hplain : line.isControl = false := by simpa using hcontrol
      have hjob : line.isJob = false := Line.hasKeyword_eq_false hplain _
      rw [List.takeWhile_cons, hjob, plainLines_of_plain hplain, if_pos (by rfl),
        plainLines_of_plain hplain, ih]

namespace Reader

variable {α : Type} {r r' : Reader}

/-- The input lines that `r` has still to offer in the segment that it is in. -/
def unread (r : Reader) : List Line :=
  match r.part with
  | .input => plainLines r.rest
  | .afterInput => []
  | _ => sectionLines r.rest

/-- The lines that `r` has still to offer after the segment that it is in. -/
def ahead (r : Reader) : List Line :=
  jobLines r.rest

theorem unread_of_part (hinput : r.part ≠ .input) (hafter : r.part ≠ .afterInput) :
    r.unread = sectionLines r.rest := by
  unfold unread
  split <;> simp_all

/-- What a read of an input word gives, as `word?`, and does, from `r` to `r'`. -/
structure Fetches (r r' : Reader) (word? : Except ReadError (Option Word)) : Prop where
  part : r'.part ≠ .code
  ahead : r'.ahead = r.ahead
  unread : r'.unread = r.unread.tail
  healthy : word?.isOk = true → r'.healthy = r.healthy
  word : word? = match r.unread with
    | [] => .ok none
    | line :: _ => line.input.map some

/-- `readInput` reads the next line in an input section. -/
theorem readInput_fetches (hpart : r.part = .input) : Fetches r r.readInput.2 r.readInput.1 := by
  have hunread : r.unread = plainLines r.rest := by simp [unread, hpart]
  unfold readInput readLine takeLine
  cases hrest : r.rest with
  | nil =>
    rw [hrest] at hunread
    refine ⟨?_, ?_, by rw [hunread]; rfl, fun _ => rfl, by rw [hunread]; rfl⟩
    · simp
    · simp [ahead, hrest]
  | cons line rest =>
    -- a control line ends the section and is left to be read; any other line is taken off
    by_cases hcontrol : line.isControl = true
    · have hnone : r.unread = [] := by rw [hunread, hrest, plainLines]; simp [hcontrol]
      simp only [hcontrol, if_true]
      refine ⟨?_, ?_, by rw [hnone]; rfl, fun _ => rfl, by rw [hnone]⟩
      · simp
      · simp [ahead, hrest]
    · have hplain : line.isControl = false := by simpa using hcontrol
      have hsome : r.unread = line :: plainLines rest := by
        rw [hunread, hrest, plainLines]
        simp [hplain, plainLines]
      have hahead : jobLines rest = r.ahead := by
        rw [ahead, hrest, jobLines_cons (Line.hasKeyword_eq_false hplain _)]
      simp only [hplain, Bool.false_eq_true, if_false]
      cases hinput : line.input with
      | ok w =>
        refine ⟨?_, hahead, ?_, fun _ => rfl, ?_⟩
        · simp [hpart]
        · rw [hsome]
          simp [unread, hpart]
        · rw [hsome]
          simp only [hinput]
          rfl
      | error e =>
        refine ⟨?_, hahead, ?_, ?_, ?_⟩
        · simp [fail, hpart]
        · rw [hsome]
          simp [fail, unread, hpart]
        · intro hok
          simp [fail, Except.isOk, Except.toBool] at hok
        · rw [hsome]
          simp only [hinput]
          rfl

/-- `fetchInput` takes the next unread line, if there is one. -/
theorem fetchInput_fetches (hpart : r.part ≠ .code) :
    Fetches r r.fetchInput.2 r.fetchInput.1 := by
  by_cases hinput : r.part = .input
  · have hread : r.fetchInput = r.readInput := by simp [fetchInput, hinput]
    rw [hread]
    exact readInput_fetches hinput
  by_cases hafter : r.part = .afterInput
  · have hread : r.fetchInput = (.ok none, r) := by simp [fetchInput, hafter]
    have hnone : r.unread = [] := by simp [unread, hafter]
    rw [hread]
    exact ⟨hpart, rfl, by rw [hnone]; rfl, fun _ => rfl, by rw [hnone]⟩
  -- anywhere else the reader looks for the section first
  have hread : r.fetchInput = enter seekInput readInput r := by
    unfold fetchInput
    split <;> simp_all
  have hunread := unread_of_part hinput hafter
  have hahead := jobLines_dropWhile r.rest
  rw [hread]
  unfold enter seekInput
  rw [if_neg hinput]
  cases hseek : r.rest.dropWhile fun l => !l.isRun && !l.isJob with
  | nil =>
    have hnone : r.unread = [] := by rw [hunread, sectionLines, hseek]
    rw [hseek] at hahead
    refine ⟨hpart, hahead, ?_, fun _ => rfl, by rw [hnone]⟩
    rw [hnone]
    exact unread_of_part (r := { r with rest := [] }) hinput hafter
  | cons line rest =>
    rw [hseek] at hahead
    by_cases hrun : line.isRun = true
    · -- the section starts here, and its first line is read
      simp only [hrun, if_true]
      have hjob : line.isJob = false := Line.isJob_eq_false_of_isRun hrun
      have hsection : (⟨r.origin, rest, .input, r.name, r.healthy⟩ : Reader).unread = r.unread := by
        rw [hunread, sectionLines, hseek]
        simp [unread, hrun]
      have h := readInput_fetches (r := ⟨r.origin, rest, .input, r.name, r.healthy⟩) rfl
      refine ⟨h.part, ?_, ?_, h.healthy, ?_⟩
      · rw [h.ahead, ahead, ahead, ← hahead, jobLines_cons hjob]
      · rw [h.unread, hsection]
      · rw [h.word, hsection]
    · have hnone : r.unread = [] := by
        rw [hunread, sectionLines, hseek]
        simp [hrun]
      simp only [hrun, Bool.false_eq_true, if_false]
      refine ⟨hpart, hahead, ?_, fun _ => rfl, by rw [hnone]⟩
      have hsame := sectionLines_dropWhile r.rest
      rw [hseek, ← hunread] at hsame
      rw [hnone] at hsame ⊢
      exact (unread_of_part (r := { r with rest := line :: rest }) hinput hafter).trans hsame

/-! ## The code of a segment -/

/-- The reader `r`, which is in the code of a segment, after this code. -/
def pastCode (r : Reader) : Reader :=
  { r with rest := fromControl r.rest, part := .afterCode }

/-- `collect` over the lines of the section `part` until it is over gives what they stand for. -/
theorem collect_readLine (part after : Part) (decode : Line → Except ReadError α)
    {next : Reader → Reading (Option α)}
    (hnext : ∀ r : Reader, r.part = part → next r = r.readLine after decode) {n : Nat}
    {as : List α} (hpart : r.part = part) (hlength : r.rest.length < n)
    (h : r.collect next n = (.ok as, r')) :
    List.Forall₂ (fun line a => decode line = .ok a) (plainLines r.rest) as ∧
      r' = { r with rest := fromControl r.rest, part := after } := by
  -- a read takes a line, so the lines come to an end before the reads do
  induction n generalizing r as with
  | zero => exact absurd hlength (Nat.not_lt_zero _)
  | succ n ih =>
    unfold collect at h
    rw [hnext r hpart, readLine, takeLine] at h
    cases hrest : r.rest with
    | nil =>
      rw [hrest] at h
      cases h
      exact ⟨.nil, rfl⟩
    | cons line rest =>
      rw [hrest] at h hlength
      by_cases hcontrol : line.isControl = true
      · simp only [hcontrol, if_true] at h
        cases h
        rw [plainLines_of_control hcontrol, fromControl_of_control hcontrol]
        exact ⟨.nil, rfl⟩
      · have hplain : line.isControl = false := by simpa using hcontrol
        simp only [hplain, Bool.false_eq_true, if_false] at h
        rw [plainLines_of_plain hplain, fromControl_of_plain hplain]
        cases hdecode : decode line with
        | error e => simp [hdecode, fail] at h
        | ok a =>
          simp only [hdecode] at h
          split at h
          · rename_i hmore
            cases h
            obtain ⟨hall, hreader⟩ := ih (r := { r with rest }) hpart
              (by simpa using hlength) hmore
            exact ⟨.cons hdecode hall, hreader⟩
          · simp at h

/-- `fetchInstruction` in the code of a segment comes to the end of the code, or it reads an
instruction, or the next line is none. -/
theorem fetchInstruction_cases (hpart : r.part = .code) :
    (plainLines r.rest = [] ∧ r.fetchInstruction = (.ok none, r.pastCode)) ∨
    ∃ line lines, plainLines r.rest = line :: lines ∧
      ((∃ i r₁, line.instruction = .ok i ∧ r.fetchInstruction = (.ok (some i), r₁) ∧
        r₁.part = .code ∧ plainLines r₁.rest = lines ∧ r₁.pastCode = r.pastCode) ∨
      ∃ e r₁, line.instruction = .error e ∧ r.fetchInstruction = (.error e, r₁)) := by
  have hread : r.fetchInstruction = r.readInstruction := by rw [fetchInstruction, hpart]
  rw [hread, readInstruction, readLine, takeLine]
  unfold pastCode
  cases hrest : r.rest with
  | nil => exact .inl ⟨rfl, rfl⟩
  | cons line rest =>
    by_cases hcontrol : line.isControl = true
    · rw [plainLines_of_control hcontrol, fromControl_of_control hcontrol]
      refine .inl ⟨rfl, ?_⟩
      simp only [hcontrol, if_true]
    · have hplain : line.isControl = false := by simpa using hcontrol
      rw [plainLines_of_plain hplain, fromControl_of_plain hplain]
      simp only [hplain, Bool.false_eq_true, if_false]
      refine .inr ⟨line, plainLines rest, rfl, ?_⟩
      cases hdecode : line.instruction with
      | error e => exact .inr ⟨e, _, rfl, rfl⟩
      | ok i => exact .inl ⟨i, _, rfl, rfl, hpart, rfl, rfl⟩

/-- `image` is what the lines of the code at hand stand for, as long as there is `room` for it. -/
theorem image_eq_ok_iff {room : Nat} {is : List Instruction} (hpart : r.part = .code) :
    r.image room = (.ok is, r') ↔
      List.Forall₂ (fun line i => line.instruction = .ok i) (plainLines r.rest) is ∧
        is.length ≤ room ∧ r' = r.pastCode := by
  -- every instruction takes its room, and one for which there is none is an error
  induction room generalizing r is with
  | zero =>
    unfold image
    rcases fetchInstruction_cases hpart with
      ⟨hnone, hfetch⟩ | ⟨line, lines, hsome, ⟨i, r₁, hi, hfetch, _⟩ | ⟨e, r₁, he, hfetch⟩⟩
    · rw [hfetch, hnone]
      simp only [Prod.mk.injEq, Except.ok.injEq, List.forall₂_nil_left_iff]
      constructor
      · rintro ⟨rfl, rfl⟩
        exact ⟨rfl, Nat.le_refl 0, rfl⟩
      · rintro ⟨rfl, _, rfl⟩
        exact ⟨rfl, rfl⟩
    · rw [hfetch, hsome]
      simp only [Prod.mk.injEq, reduceCtorEq, false_and, false_iff]
      rintro ⟨hall, hlength, _⟩
      cases hall
      simp at hlength
    · rw [hfetch, hsome]
      simp only [Prod.mk.injEq, reduceCtorEq, false_and, false_iff]
      rintro ⟨hall, hlength, _⟩
      cases hall
      simp at hlength
  | succ room ih =>
    unfold image
    rcases fetchInstruction_cases hpart with
      ⟨hnone, hfetch⟩ | ⟨line, lines, hsome, ⟨i, r₁, hi, hfetch, hcode, hlines, hpast⟩ |
        ⟨e, r₁, he, hfetch⟩⟩
    · rw [hfetch, hnone]
      simp only [Prod.mk.injEq, Except.ok.injEq, List.forall₂_nil_left_iff]
      constructor
      · rintro ⟨rfl, rfl⟩
        exact ⟨rfl, Nat.zero_le _, rfl⟩
      · rintro ⟨rfl, _, rfl⟩
        exact ⟨rfl, rfl⟩
    · rw [hfetch, hsome, ← hlines, ← hpast]
      simp only
      constructor
      · intro h
        split at h
        · rename_i hmore
          cases h
          obtain ⟨hall, hlength, hreader⟩ := (ih hcode).1 hmore
          exact ⟨.cons hi hall, by simpa using hlength, hreader⟩
        · simp at h
      · rintro ⟨hall, hlength, rfl⟩
        cases hall with
        | cons hi' hall =>
          rw [hi] at hi'
          cases hi'
          rw [(ih hcode).2 ⟨hall, by simpa using hlength, rfl⟩]
    · rw [hfetch, hsome]
      simp only [Prod.mk.injEq, reduceCtorEq, false_and, false_iff]
      rintro ⟨hall, _⟩
      cases hall with
      | cons hi => simp [he] at hi

/-- After `nextImage` has read the code of a segment the reader is past it. -/
theorem part_nextImage {is : List Instruction} (h : r.nextImage = (.ok (some is), r')) :
    r'.part = .afterCode := by
  -- an image is read only after its section has been entered
  unfold nextImage at h
  split at h
  · simp at h
  · simp at h
  · rename_i r₁ hseek
    have hpart : r₁.part = .code := by
      unfold seekCode at hseek
      by_cases hcode : r.part = .code
      · rw [if_pos hcode] at hseek
        cases hseek
        exact hcode
      · rw [if_neg hcode] at hseek
        split at hseek
        · simp at hseek
        · split at hseek
          · cases hseek
            rfl
          · simp [fail] at hseek
    split at h
    · rename_i himage
      cases h
      rw [((image_eq_ok_iff hpart).1 himage).2.2]
      rfl
    · simp at h

theorem part_ne_code_nextImage {is : List Instruction} (h : r.nextImage = (.ok (some is), r')) :
    r'.part ≠ .code := by
  rw [part_nextImage h]
  decide

/-- Outside of the code of a segment, `nextImage` loads the segment that the lines ahead start
with. -/
theorem nextImage_eq_some_iff {is : List Instruction} (hpart : r.part ≠ .code) :
    r.nextImage = (.ok (some is), r') ↔
      ∃ line rest name, r.ahead = line :: rest ∧ line.name? = some name ∧
        List.Forall₂ (fun line i => line.instruction = .ok i) (plainLines rest) is ∧
        is.length ≤ imageLimit ∧
        r' = ⟨r.origin, fromControl rest, .afterCode, name, r.healthy⟩ := by
  unfold nextImage seekCode ahead jobLines
  rw [if_neg hpart]
  -- the search goes to the next line that starts a job, if there is one
  cases hseek : r.rest.dropWhile fun l => !l.isJob with
  | nil => simp
  | cons line rest =>
    cases hname : line.name? with
    | none => simp [fail, hname]
    | some name =>
      simp only [hname]
      constructor
      · intro h
        split at h
        · rename_i himage
          cases h
          obtain ⟨hall, hlength, hreader⟩ := (image_eq_ok_iff rfl).1 himage
          exact ⟨line, rest, name, rfl, hname, hall, hlength, hreader⟩
        · simp at h
      · rintro ⟨line', rest', name', heq, hname', hall, hlength, rfl⟩
        cases heq
        rw [hname] at hname'
        cases hname'
        rw [(image_eq_ok_iff (r := ⟨r.origin, rest, .code, name, r.healthy⟩) rfl).2
          ⟨hall, hlength, rfl⟩]
        rfl

end Reader

/-! ## The segments that lines hold -/

/-- Lines hold segments: each starts with a line of its own, then comes its code, and somewhere
before the next segment its input. -/
inductive Holds : List Line → List Segment → Prop
  /-- There is no segment. -/
  | none {lines : List Line} : jobLines lines = [] → Holds lines []
  /-- There is one, and more may follow. -/
  | some {lines rest : List Line} {line : Line} {s : Segment} {ss : List Segment} :
      jobLines lines = line :: rest → line.name? = some s.name →
      List.Forall₂ (fun line i => line.instruction = .ok i) (plainLines rest) s.code →
      List.Forall₂ (fun line w => line.input = .ok w) (sectionLines (fromControl rest))
        (s.input?.getD []) →
      Holds rest ss → Holds lines (s :: ss)

/-- `lines` before the first segment do not count. -/
theorem Holds.congr {lines' : List Line} {ss : List Segment} (h : Holds lines ss)
    (hsame : jobLines lines' = jobLines lines) : Holds lines' ss := by
  cases h with
  | none hnone => exact .none (hsame.trans hnone)
  | some hfirst hname hcode hinput hrest =>
    exact .some (hsame.trans hfirst) hname hcode hinput hrest

/-- The lines that start jobs are ahead, in `jobLines`. -/
theorem countP_jobLines (lines : List Line) :
    (jobLines lines).countP Line.isJob = lines.countP Line.isJob := by
  induction lines with
  | nil => rfl
  | cons line lines ih =>
    by_cases hjob : line.isJob = true
    · simp [jobLines, hjob]
    · have hother : line.isJob = false := by simpa using hjob
      rw [jobLines_cons hother, ih, List.countP_cons_of_neg (by simp [hother])]

namespace Reader

variable {r r' : Reader}

/-- `inputSection` gives the input section that follows the code of a segment. -/
theorem inputSection_eq_ok {input? : Option (List Word)} (hpart : r.part = .afterCode)
    (h : r.inputSection = (.ok input?, r')) :
    List.Forall₂ (fun line w => line.input = .ok w) (sectionLines r.rest) (input?.getD []) ∧
      r'.part ≠ .code ∧ r'.ahead = r.ahead := by
  have hahead := jobLines_dropWhile r.rest
  unfold inputSection seekInput at h
  rw [hpart, if_neg (by decide)] at h
  unfold sectionLines ahead
  cases hseek : r.rest.dropWhile fun l => !l.isRun && !l.isJob with
  | nil =>
    rw [hseek] at h hahead
    cases h
    exact ⟨.nil, by simp, hahead⟩
  | cons line rest =>
    rw [hseek] at h hahead
    -- an input section is there only if the code is followed by a line that runs the job
    by_cases hrun : line.isRun = true
    · simp only [hrun, if_true] at h ⊢
      have hjob : line.isJob = false := Line.isJob_eq_false_of_isRun hrun
      split at h
      · rename_i hread
        cases h
        obtain ⟨hall, rfl⟩ := collect_readLine .input .afterInput Line.input
          (fun r hr => by rw [fetchInput, hr]; rfl) rfl
          (Nat.lt_succ_self _) hread
        refine ⟨hall, by simp, ?_⟩
        rw [← hahead, jobLines_cons hjob]
        exact jobLines_fromControl rest
      · simp at h
    · simp only [hrun, Bool.false_eq_true, if_false] at h ⊢
      cases h
      exact ⟨.nil, by simp, hahead⟩

/-- The lines of a text hold the segments `ss` that it reads as. -/
theorem holds_of_segmentsUpTo {n : Nat} {ss : List Segment} (hpart : r.part ≠ .code)
    (hcount : r.rest.countP Line.isJob < n) (h : segmentsUpTo n r = (.ok ss, r')) :
    Holds r.rest ss := by
  -- a segment takes the line that starts it, so these lines bound the number of segments
  induction n generalizing r ss with
  | zero => exact absurd hcount (Nat.not_lt_zero _)
  | succ n ih =>
    unfold segmentsUpTo seekCode at h
    rw [if_neg hpart] at h
    rw [← countP_jobLines] at hcount
    cases hseek : r.rest.dropWhile fun l => !l.isJob with
    | nil =>
      rw [hseek] at h
      cases h
      exact .none hseek
    | cons line rest =>
      rw [hseek] at h
      have hjobs : jobLines r.rest = line :: rest := hseek
      have hjob : line.isJob = true := by
        have := List.head?_dropWhile_not (fun l : Line => !l.isJob) r.rest
        rw [hseek] at this
        simpa using this
      cases hname : line.name? with
      | none => simp [hname, fail] at h
      | some name =>
        simp only [hname] at h
        split at h
        · simp at h
        · rename_i s r₂ hsegment
          unfold segment at hsegment
          split at hsegment
          · simp at hsegment
          · rename_i code r₃ hcode
            obtain ⟨hall, rfl⟩ := collect_readLine .code .afterCode Line.instruction
              (fun r hr => by rw [fetchInstruction, hr]; rfl) rfl
              (Nat.lt_succ_self _) hcode
            split at hsegment
            · simp at hsegment
            · rename_i input? r₄ hinput
              cases hsegment
              obtain ⟨hwords, hpart₂, hahead⟩ := inputSection_eq_ok rfl hinput
              have hsame : jobLines r₂.rest = jobLines rest :=
                hahead.trans (jobLines_fromControl rest)
              split at h
              · rename_i hmore
                cases h
                have hrest := ih hpart₂ (by
                  rw [← countP_jobLines, hsame, countP_jobLines]
                  rw [hjobs, List.countP_cons_of_pos hjob] at hcount
                  omega) hmore
                exact .some hjobs hname hall hwords (hrest.congr hsame.symm)
              · simp at h

theorem holds_of_segments {ss : List Segment} (hpart : r.part ≠ .code)
    (h : r.segments = (.ok ss, r')) : Holds r.rest ss :=
  holds_of_segmentsUpTo hpart (Nat.lt_succ_of_le (Nat.le_succ_of_le List.countP_le_length)) h

/-- `lines` stand for one list of things at most. -/
theorem forall₂_decode_inj {α : Type} {decode : Line → Except ReadError α} {lines : List Line}
    {as bs : List α} (ha : List.Forall₂ (fun line a => decode line = .ok a) lines as)
    (hb : List.Forall₂ (fun line a => decode line = .ok a) lines bs) : as = bs := by
  induction ha generalizing bs with
  | nil =>
    cases hb
    rfl
  | cons hline _ ih =>
    cases hb with
    | cons hline' hb =>
      rw [hline, Except.ok.injEq] at hline'
      rw [hline', ih hb]

/-- The first of the segments that the lines hold, `s`, can be loaded. -/
theorem nextImage_of_holds {s : Segment} {ss : List Segment} (hpart : r.part ≠ .code)
    (h : Holds r.rest (s :: ss)) (hsize : s.code.length ≤ imageLimit) :
    r.atEnd = false ∧
      ∃ r', r.nextImage = (.ok (some s.code), r') ∧ r'.healthy = r.healthy := by
  cases h with
  | @some _ rest line _ _ hfirst hname hcode _ _ =>
    refine ⟨?_, _, (nextImage_eq_some_iff hpart).2
      ⟨line, rest, s.name, hfirst, hname, hcode, hsize, rfl⟩, rfl⟩
    rw [atEnd, List.isEmpty_eq_false_iff]
    intro hnil
    rw [hnil] at hfirst
    simp [jobLines] at hfirst

/-- `nextImage` loads the first of the segments `ss` that the lines hold. Its input is left to be
read, and after that the other segments. -/
theorem holds_of_nextImage {ss : List Segment} {is : List Instruction} (hpart : r.part ≠ .code)
    (h : Holds r.rest ss) (hnext : r.nextImage = (.ok (some is), r')) :
    ∃ s ss', ss = s :: ss' ∧ is = s.code ∧ r'.name = s.name ∧ r'.part ≠ .code ∧
      r'.healthy = r.healthy ∧ Holds r'.rest ss' ∧
      List.Forall₂ (fun line w => line.input = .ok w) r'.unread (s.input?.getD []) := by
  obtain ⟨line, rest, name, hahead, hname, hcode, _, rfl⟩ := (nextImage_eq_some_iff hpart).1 hnext
  cases h with
  | none hnone =>
    rw [ahead, hnone] at hahead
    simp at hahead
  | @some _ rest' line' s ss' hfirst hname' hcode' hinput hrest =>
    rw [ahead, hfirst, List.cons.injEq] at hahead
    obtain ⟨rfl, rfl⟩ := hahead
    exact ⟨s, ss', rfl, forall₂_decode_inj hcode hcode',
      Option.some.inj (hname.symm.trans hname'), by simp, rfl,
      hrest.congr (jobLines_fromControl _), hinput⟩

/-- `Device.readWord` reads from a text the word on the next unread line, if there is one. -/
theorem readWord_some (hpart : r.part ≠ .code) :
    ∃ r', (Device.readWord (some r)).2 = some r' ∧ r'.part ≠ .code ∧ r'.ahead = r.ahead ∧
      r'.unread = r.unread.tail ∧
      ((∀ line ∈ r.unread, line.input.isOk = true) → r'.healthy = r.healthy) ∧
      (Device.readWord (some r)).1.toOption =
        r.unread.head?.bind fun line => line.input.toOption := by
  have h := fetchInput_fetches hpart
  rcases hfetch : r.fetchInput with ⟨answer, r'⟩
  rw [hfetch] at h
  have hword : answer = _ := h.word
  -- a text becomes unhealthy only by a line that holds no word
  have hhealthy : (∀ line ∈ r.unread, line.input.isOk = true) → r'.healthy = r.healthy := by
    intro hall
    refine h.healthy ?_
    rw [h.word]
    cases hunread : r.unread with
    | nil => rfl
    | cons line lines =>
      have hok := hall line (by simp [hunread])
      cases hinput : line.input with
      | ok w => simp [hinput, Except.map, Except.isOk, Except.toBool]
      | error e => simp [hinput, Except.isOk, Except.toBool] at hok
  refine ⟨r', ?_, h.part, h.ahead, h.unread, hhealthy, ?_⟩
  · simp only [Device.readWord, hfetch]
    rcases answer with _ | _ | _ <;> rfl
  · simp only [Device.readWord, hfetch]
    cases hunread : r.unread with
    | nil =>
      rw [hunread] at hword
      rw [hword]
      rfl
    | cons line lines =>
      rw [hunread] at hword
      rw [hword, List.head?_cons, Option.bind_some]
      cases hinput : line.input with
      | ok w | error e =>
        simp only [hinput, Except.map]
        rfl

/-- As long as the unread lines hold `words`, these are what `Device.readWord` reads, one by one. -/
theorem readWord_words {words : List Word} (hpart : r.part ≠ .code)
    (hwords : List.Forall₂ (fun line w => line.input = .ok w) r.unread words) :
    ∃ r', (Device.readWord (some r)).2 = some r' ∧ r'.part ≠ .code ∧ r'.ahead = r.ahead ∧
      r'.healthy = r.healthy ∧
      List.Forall₂ (fun line w => line.input = .ok w) r'.unread words.tail ∧
      (Device.readWord (some r)).1.toOption = words.head? := by
  obtain ⟨r', hnext, hpart', hahead, htail, hhealthy, hword⟩ := readWord_some hpart
  -- all unread lines hold words, so that reading one keeps the reader healthy
  have hok : ∀ line ∈ r.unread, line.input.isOk = true := by
    intro line hline
    obtain ⟨i, hi, rfl⟩ := List.mem_iff_getElem.1 hline
    have hi' : i < words.length := hwords.length_eq ▸ hi
    have hget : r.unread[i].input = .ok words[i] := hwords.get hi hi'
    rw [hget]
    rfl
  refine ⟨r', hnext, hpart', hahead, hhealthy hok, ?_, ?_⟩
  · rw [htail]
    generalize r.unread = lines at hwords
    cases hwords with
    | nil => exact .nil
    | cons _ hrest => exact hrest
  · rw [hword]
    generalize r.unread = lines at hwords
    cases hwords with
    | nil => rfl
    | cons hline _ =>
      rw [List.head?_cons, List.head?_cons, Option.bind_some, hline]
      rfl

end Reader

end BatchMachine.JobText
