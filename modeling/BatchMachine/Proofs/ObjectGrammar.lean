import BatchMachine.Proofs.ObjectCode

/-!
# The grammar of object code

What a reader makes of an object text can be told without a reader. The lines are cut where their
first word starts a job; of each piece the name, the code and the first input section behind the
code are decoded, in this order, and the first thing that cannot be decoded is the error.

* `IsCut`: lines cut at those that start a job.
* `segmentOf`: what a piece stands for, or its first error.
* `Reader.ReadsAll`: the loops that read all segments, without a bound on how often they run.
* `segments_eq_grammar`: these loops end, and they give what the pieces stand for.
-/

namespace BatchMachine.JobText

/-! ## Pieces and what they stand for -/

namespace Line

/-- The first word of `line`. -/
def opener? (line : Line) : Option String := line.tokens.head?

/-- The instruction on `line`: all of its words are numerals, and they are the fields of one. -/
def codeOf (line : Line) : Except ReadError Instruction :=
  match line.tokens.find? fun token => (Numeral.parse? 16 token).isNone with
  | some token => .error (.badNumber line.number token)
  | none =>
    (Instruction.ofFields (line.tokens.filterMap (Numeral.parse? 16))).mapError
      (.badInstruction line.number)

/-- The word on `line`: it has a single word, and this is a numeral. -/
def wordOf (line : Line) : Except ReadError Word :=
  match line.tokens.map (Numeral.parse? 16) with
  | [some w] => .ok w
  | _ => .error (.badInput line.number)

/-- The name on `line`: its second word. -/
def nameOf (line : Line) : Except ReadError String :=
  match line.tokens with
  | _ :: name :: _ => .ok name
  | _ => .error (.missingJobName line.number)

end Line

/-- `lines` are cut into `pieces` at those that start a job: behind the lines before the first job,
each piece is such a line and the lines up to the next. -/
structure IsCut (lines : List Line) (pieces : List (Line × List Line)) : Prop where
  lines : ∃ before, lines = before ++ pieces.flatMap (fun p => p.1 :: p.2) ∧
    ∀ l ∈ before, l.opener? ≠ some "$JOB"
  first : ∀ p ∈ pieces, p.1.opener? = some "$JOB"
  others : ∀ p ∈ pieces, ∀ l ∈ p.2, l.opener? ≠ some "$JOB"

/-- The input words among `lines`, those behind the code of a piece, if one of them starts an input
section: the lines after the first such line, up to the next control line. -/
def inputOf (lines : List Line) : Except ReadError (Option (List Word)) :=
  match lines.dropWhile fun l => l.opener? != some "$RUN" with
  | [] => .ok none
  | _ :: later => some <$> (plainLines later).mapM Line.wordOf

/-- The segment that `piece` stands for. -/
def segmentOf (piece : Line × List Line) : Except ReadError Segment := do
  let name ← piece.1.nameOf
  let code ← (plainLines piece.2).mapM Line.codeOf
  let input? ← inputOf (fromControl piece.2)
  return ⟨name, code, input?⟩

namespace Line

variable {line : Line}

theorem nameOf_of_some {name : String} (h : line.name? = some name) : line.nameOf = .ok name := by
  unfold name? at h
  unfold nameOf
  rcases htokens : line.tokens with _ | ⟨first, _ | ⟨second, rest⟩⟩
  · simp [htokens] at h
  · simp [htokens] at h
  · simpa [htokens] using h

theorem nameOf_of_none (h : line.name? = none) :
    line.nameOf = .error (.missingJobName line.number) := by
  unfold name? at h
  unfold nameOf
  rcases htokens : line.tokens with _ | ⟨first, _ | ⟨second, rest⟩⟩
  · rfl
  · rfl
  · simp [htokens] at h

theorem wordOf_eq_input (line : Line) : line.wordOf = line.input := by
  unfold wordOf input onlyWord?
  rcases line.tokens with _ | ⟨token, _ | ⟨second, rest⟩⟩
  · rfl
  · simp only [List.map_cons, List.map_nil]
    cases Numeral.parse? 16 token <;> rfl
  · simp

/-- `fields` reads up to the first token that is no numeral. -/
theorem fields_eq (line : Line) :
    line.fields =
      match line.tokens.find? fun token => (Numeral.parse? 16 token).isNone with
      | some token => .error (.badNumber line.number token)
      | none => .ok (line.tokens.filterMap (Numeral.parse? 16)) := by
  unfold fields
  induction line.tokens with
  | nil => rfl
  | cons token tokens ih =>
    rw [List.mapM_cons]
    cases hparse : Numeral.parse? 16 token with
    | none => simp [hparse]; rfl
    | some w =>
      rw [ih, List.find?_cons_of_neg (by simp [hparse]), List.filterMap_cons_some hparse]
      cases tokens.find? fun token => (Numeral.parse? 16 token).isNone <;> rfl

theorem codeOf_eq_instruction (line : Line) : line.codeOf = line.instruction := by
  unfold codeOf instruction
  rw [fields_eq]
  cases line.tokens.find? fun token => (Numeral.parse? 16 token).isNone with
  | some token => rfl
  | none =>
    simp only [bind, Except.bind]
    cases Instruction.ofFields (line.tokens.filterMap (Numeral.parse? 16)) <;> rfl

end Line

/-! ## First words -/

/-- The words of a text that starts with a character `c` that is no blank start with `c`. -/
theorem head?_words {c : Char} {cs : List Char} (h : Text.isBlank c = false) :
    ∃ word rest, Text.words (c :: cs) = (c :: word) :: rest := by
  obtain ⟨first, others, hsplit⟩ := List.exists_cons_of_ne_nil
    (List.splitOnP_ne_nil Text.isBlank cs)
  refine ⟨first, others.filter fun p => !p.isEmpty, ?_⟩
  rw [Text.words, List.splitOnP_cons_eq_if_modifyHead, h, hsplit]
  rfl

/-- What `cleaned` leaves of `raw` starts with no blank. -/
theorem isBlank_head?_cleaned {raw : List Char} {c : Char} (h : (cleaned raw).head? = some c) :
    Text.isBlank c = false := by
  unfold cleaned Text.trim at h
  generalize (raw.takeWhile (· != '%')).map (fun c => if c = ',' then ' ' else c) = kept at h
  -- blanks at the end are dropped behind the first character
  obtain ⟨rest, hrest⟩ := List.rdropWhile_prefix Text.isBlank (l := kept.dropWhile Text.isBlank)
  have hfirst : (kept.dropWhile Text.isBlank).head? = some c := by
    rw [← hrest, List.head?_append, List.rdropWhile, h]
    rfl
  have hhead := List.head?_dropWhile_not Text.isBlank kept
  rw [hfirst] at hhead
  simpa using hhead

/-- `line` starts with its first word. -/
def Line.IsOpened (line : Line) : Prop :=
  ∀ word ∈ line.opener?, word.toList.head? = line.text.head?

theorem isOpened_of_mem {text : String} {line : Line} (h : line ∈ linesOf text) :
    line.IsOpened := by
  obtain ⟨raw, hraw⟩ := exists_cleaned_of_mem h
  rintro word hword
  unfold Line.opener? Line.tokens at hword
  cases htext : line.text with
  | nil => simp [htext, Text.words, List.splitOnP_nil] at hword
  | cons c cs =>
    have hblank : Text.isBlank c = false :=
      @isBlank_head?_cleaned raw c (by rw [← hraw, htext]; rfl)
    obtain ⟨first, rest, hwords⟩ := @head?_words c cs hblank
    rw [htext, hwords] at hword
    obtain rfl : String.ofList (c :: first) = word := by simpa using hword
    simp

namespace Line.IsOpened

variable {line : Line} {lines : List Line}

/-- So `line` has the keyword `keyword` if this is its first word. -/
theorem hasKeyword_iff {keyword : String} (h : line.IsOpened)
    (hkeyword : keyword.toList.head? = some '$') :
    line.hasKeyword keyword = true ↔ line.opener? = some keyword := by
  unfold Line.hasKeyword Line.isControl
  rw [Bool.and_eq_true, beq_iff_eq, beq_iff_eq]
  exact ⟨fun hboth => hboth.2, fun hopener => ⟨by rw [← h keyword hopener, hkeyword], hopener⟩⟩

theorem isJob_iff (h : line.IsOpened) : line.isJob = true ↔ line.opener? = some "$JOB" :=
  h.hasKeyword_iff (by decide)

theorem isRun_iff (h : line.IsOpened) : line.isRun = true ↔ line.opener? = some "$RUN" :=
  h.hasKeyword_iff (by decide)

end Line.IsOpened

/-! ## Cutting -/

/-- The lines `before` the first job do not count. -/
theorem parts_skip {before lines : List Line} (h : ∀ l ∈ before, l.isJob = false) :
    parts (before ++ lines) = parts lines := by
  have hskip : jobLines (before ++ lines) = jobLines lines :=
    List.dropWhile_append_of_pos fun l hl => by simp [h l hl]
  rw [← parts_jobLines, hskip, parts_jobLines]

/-- `pieces` are the parts of the lines that they are cut from. -/
theorem parts_flatMap {pieces : List (Line × List Line)} (hfirst : ∀ p ∈ pieces, p.1.isJob = true)
    (hothers : ∀ p ∈ pieces, ∀ l ∈ p.2, l.isJob = false) :
    parts (pieces.flatMap fun p => p.1 :: p.2) = pieces := by
  induction pieces with
  | nil => rfl
  | cons p pieces ih =>
    have hrest : ∀ l ∈ (pieces.flatMap fun p => p.1 :: p.2).head?, l.isJob = true := by
      cases pieces with
      | nil => simp
      | cons p' pieces => simpa using hfirst p' (by simp)
    rw [List.flatMap_cons, List.cons_append,
      parts_append (hfirst p List.mem_cons_self) (hothers p List.mem_cons_self) hrest,
      ih (fun p hp => hfirst p (List.mem_cons_of_mem _ hp))
        (fun p hp => hothers p (List.mem_cons_of_mem _ hp))]

/-- Every list of `lines` is what is before the first job and the parts from there on. -/
theorem exists_flatMap_parts (lines : List Line) :
    ∃ before, lines = before ++ (parts lines).flatMap (fun p => p.1 :: p.2) ∧
      ∀ l ∈ before, l.isJob = false := by
  induction lines with
  | nil => exact ⟨[], rfl, by simp⟩
  | cons line lines ih =>
    obtain ⟨before, hlines, hbefore⟩ := ih
    rw [parts]
    cases hjob : line.isJob with
    | false => exact ⟨line :: before, by simpa using hlines, by simpa [hjob] using hbefore⟩
    | true =>
      refine ⟨[], ?_, by simp⟩
      -- the lines up to the next job are those before it
      have hhead : ∀ l ∈ ((parts lines).flatMap fun p => p.1 :: p.2).head?, l.isJob = true := by
        cases hparts : parts lines with
        | nil => simp
        | cons p ps =>
          have hmem : p ∈ parts lines := hparts ▸ List.mem_cons_self
          simpa using (of_mem_parts hmem).2.1
      have htake : lines.takeWhile (fun l => !l.isJob) = before := by
        conv_lhs => rw [hlines]
        rw [List.takeWhile_append_of_pos fun l hl => by simp [hbefore l hl]]
        cases hrest : (parts lines).flatMap fun p => p.1 :: p.2 with
        | nil => simp
        | cons l rest => simp [hhead l (by simp [hrest])]
      simp only [if_true, htake, List.nil_append, List.flatMap_cons, List.cons_append]
      rw [← hlines]

/-- The lines of `text` can be cut in one way. -/
theorem isCut_iff {text : String} {pieces : List (Line × List Line)} :
    IsCut (linesOf text) pieces ↔ pieces = parts (linesOf text) := by
  -- keywords and first words tell the same of the lines of a text
  have hjob : ∀ l ∈ linesOf text, (l.isJob = true ↔ l.opener? = some "$JOB") := fun l hl =>
    (isOpened_of_mem hl).isJob_iff
  constructor
  · intro h
    obtain ⟨before, hlines, hbefore⟩ := h.lines
    have hmem : ∀ p ∈ pieces, p.1 ∈ linesOf text ∧ ∀ l ∈ p.2, l ∈ linesOf text := by
      intro p hp
      have hpiece : ∀ l ∈ p.1 :: p.2, l ∈ linesOf text := fun l hl => by
        rw [hlines]
        exact List.mem_append_right _ (List.mem_flatMap.2 ⟨p, hp, hl⟩)
      exact ⟨hpiece _ List.mem_cons_self, fun l hl => hpiece l (List.mem_cons_of_mem _ hl)⟩
    have hskip : ∀ l ∈ before, l.isJob = false := fun l hl => by
      rw [← Bool.not_eq_true, hjob l (by rw [hlines]; exact List.mem_append_left _ hl)]
      exact hbefore l hl
    rw [hlines, parts_skip hskip, parts_flatMap]
    · exact fun p hp => (hjob _ (hmem p hp).1).2 (h.first p hp)
    · intro p hp l hl
      rw [← Bool.not_eq_true, hjob l ((hmem p hp).2 l hl)]
      exact h.others p hp l hl
  · rintro rfl
    obtain ⟨before, hlines, hbefore⟩ := exists_flatMap_parts (linesOf text)
    refine ⟨⟨before, hlines, fun l hl => ?_⟩, fun p hp => ?_, fun p hp l hl => ?_⟩
    · rw [ne_eq, ← hjob l (by rw [hlines]; exact List.mem_append_left _ hl)]
      simp [hbefore l hl]
    · exact (hjob _ (of_mem_parts hp).1).1 (of_mem_parts hp).2.1
    · obtain ⟨hmem, hnot⟩ := (of_mem_parts hp).2.2 l hl
      rw [ne_eq, ← hjob l hmem]
      simp [hnot]

/-! ## The loops of reading -/

namespace Reader

variable {α : Type} {r r' r₁ r₂ : Reader}

/-- `next` is repeated until it gives nothing more or fails, however often that is. -/
inductive Repeats (next : Reader → Reading (Option α)) : Reader → Reading (List α) → Prop
  | ends {r r' : Reader} : next r = (.ok none, r') → Repeats next r (.ok [], r')
  | fails {r r' : Reader} {e : ReadError} :
      next r = (.error e, r') → Repeats next r (.error e, r')
  | takes {r r' : Reader} {a : α} {reading : Reading (List α)} :
      next r = (.ok (some a), r') → Repeats next r' reading →
      Repeats next r (reading.1.map (a :: ·), reading.2)

/-- What reading the input gives when the code of a segment has been read: the input is read to its
end if there is some. -/
inductive ReadsInput : Reader → Reading (Option (List Word)) → Prop
  | badSearch {r r' : Reader} {e : ReadError} :
      r.seekInput = (.error e, r') → ReadsInput r (.error e, r')
  | none {r r' : Reader} : r.seekInput = (.ok false, r') → ReadsInput r (.ok none, r')
  | some {r r' : Reader} {reading : Reading (List Word)} :
      r.seekInput = (.ok true, r') → Repeats fetchInput r' reading →
      ReadsInput r (reading.1.map some, reading.2)

/-- What reading the segment whose code a reader has entered gives: its code is read to the end, and
then its input. -/
inductive ReadsSegment : Reader → Reading Segment → Prop
  | badCode {r r' : Reader} {e : ReadError} :
      Repeats fetchInstruction r (.error e, r') → ReadsSegment r (.error e, r')
  | code {r r' : Reader} {code : List Instruction} {reading : Reading (Option (List Word))} :
      Repeats fetchInstruction r (.ok code, r') → ReadsInput r' reading →
      ReadsSegment r (reading.1.map fun input? => ⟨r.name, code, input?⟩, reading.2)

/-- What reading all segments gives: as long as there is a further one, it is entered and read. -/
inductive ReadsAll : Reader → Reading (List Segment) → Prop
  | ends {r r' : Reader} : r.seekCode = (.ok false, r') → ReadsAll r (.ok [], r')
  | badSearch {r r' : Reader} {e : ReadError} :
      r.seekCode = (.error e, r') → ReadsAll r (.error e, r')
  | badSegment {r r₁ r' : Reader} {e : ReadError} :
      r.seekCode = (.ok true, r₁) → ReadsSegment r₁ (.error e, r') → ReadsAll r (.error e, r')
  | segment {r r₁ r₂ : Reader} {s : Segment} {reading : Reading (List Segment)} :
      r.seekCode = (.ok true, r₁) → ReadsSegment r₁ (.ok s, r₂) → ReadsAll r₂ reading →
      ReadsAll r (reading.1.map (s :: ·), reading.2)

/-- `collect` with one more read at the start of the loop. -/
theorem collect_succ {next : Reader → Reading (Option α)} {a : α} (n : Nat)
    (h : next r = (.ok (some a), r')) :
    r.collect next (n + 1) = ((r'.collect next n).1.map (a :: ·), (r'.collect next n).2) := by
  rw [collect, h]
  simp only
  rcases r'.collect next n with ⟨answer, r''⟩
  cases answer <;> rfl

/-- `collect` over the lines of a section ends before its bound `n`, and gives what these lines
stand for, or the error of the first that stands for nothing. -/
theorem collect_spec (part after : Part) (decode : Line → Except ReadError α)
    {next : Reader → Reading (Option α)}
    (hnext : ∀ r : Reader, r.part = part → next r = r.readLine after decode) {n : Nat}
    (hpart : r.part = part) (hlength : r.rest.length < n) :
    Repeats next r (r.collect next n) ∧
      (r.collect next n).1 = (plainLines r.rest).mapM decode := by
  -- a read takes a line, so the lines come to an end before the reads do
  induction n generalizing r with
  | zero => exact absurd hlength (Nat.not_lt_zero _)
  | succ n ih =>
    have hread := hnext r hpart
    unfold readLine takeLine at hread
    cases hrest : r.rest with
    | nil =>
      simp only [hrest] at hread
      rw [collect, hread]
      exact ⟨.ends hread, rfl⟩
    | cons line rest =>
      rw [hrest] at hlength
      cases hcontrol : line.isControl with
      | true =>
        simp only [hrest, hcontrol, if_true] at hread
        rw [collect, hread, plainLines_of_control hcontrol]
        exact ⟨.ends hread, rfl⟩
      | false =>
        simp only [hrest, hcontrol, Bool.false_eq_true, if_false] at hread
        rw [plainLines_of_plain hcontrol, List.mapM_cons]
        cases hdecode : decode line with
        | error e =>
          simp only [hdecode, fail] at hread
          rw [collect, hread]
          exact ⟨.fails hread, rfl⟩
        | ok a =>
          simp only [hdecode] at hread
          obtain ⟨hloop, hall⟩ := ih (r := { r with rest }) hpart (by simpa using hlength)
          rw [collect_succ n hread]
          refine ⟨.takes hread hloop, ?_⟩
          rw [hall]
          cases (plainLines rest).mapM decode <;> rfl

/-- The input words on the lines of an input section, if there is one. -/
def decodeInput : Option (List Line) → Except ReadError (Option (List Word))
  | none => .ok none
  | some lines => some <$> lines.mapM Line.input

/-- `inputSection` reads the input section before the next job, if there is one. -/
theorem inputSection_spec (hpart : r.part ≠ .input) :
    ReadsInput r r.inputSection ∧ r.inputSection.1 = decodeInput (inputLines? r.rest) := by
  unfold inputSection
  rcases seekInput_cases hpart with ⟨hnone, hseek⟩ | ⟨rest, hsome, hseek, _⟩
  · rw [hseek, hnone]
    exact ⟨.none hseek, rfl⟩
  · obtain ⟨hloop, hall⟩ := @collect_spec _ { r with rest, part := .input } .input .afterInput
      Line.input _ fetchInput_of_part _ rfl (Nat.lt_succ_self _)
    have hsection := ReadsInput.some hseek hloop
    rw [hseek, hsome, decodeInput, ← hall]
    revert hsection
    simp only [readAll]
    rcases collect fetchInput (rest.length + 1) { r with rest, part := .input } with ⟨answer, r'⟩
    intro hsection
    cases answer <;> exact ⟨hsection, rfl⟩

/-- What a reader `r` that has entered the code of a segment makes of it. -/
theorem segment_spec (hpart : r.part = .code) :
    ReadsSegment r r.segment ∧ r.segment.1 = (do
      let code ← (plainLines r.rest).mapM Line.instruction
      let input? ← decodeInput (inputLines? r.rest)
      return ⟨r.name, code, input?⟩) := by
  -- the loop over the code comes first, and then the input behind it
  obtain ⟨hloop, hcode⟩ := @collect_spec _ r .code .afterCode Line.instruction _
    fetchInstruction_of_part _ hpart (Nat.lt_succ_self _)
  unfold segment
  rw [readAll]
  rcases hcollect : collect fetchInstruction (r.rest.length + 1) r with ⟨answer, r₁⟩
  rw [hcollect] at hloop hcode
  cases answer with
  | error e =>
    rw [← hcode]
    exact ⟨.badCode hloop, rfl⟩
  | ok code =>
    obtain ⟨_, rfl⟩ := collect_readLine .code .afterCode Line.instruction
      fetchInstruction_of_part hpart (Nat.lt_succ_self _) hcollect
    obtain ⟨hsection, hinput⟩ := @inputSection_spec
      { r with rest := fromControl r.rest, part := .afterCode } (by simp)
    have hsegment := ReadsSegment.code hloop hsection
    rw [inputLines?_fromControl] at hinput
    rw [← hcode, ← hinput]
    revert hsegment
    simp only
    rcases inputSection { r with rest := fromControl r.rest, part := .afterCode } with
      ⟨answer, r₂⟩
    intro hsegment
    cases answer <;> exact ⟨hsegment, rfl⟩

/-- For the `lines` behind the code of a piece, `inputOf` is the input section before the next
job. -/
theorem inputOf_eq {lines : List Line} (hopened : ∀ l ∈ lines, l.IsOpened)
    (hjob : ∀ l ∈ lines, l.isJob = false) : inputOf lines = decodeInput (inputLines? lines) := by
  have hword : Line.wordOf = Line.input := funext Line.wordOf_eq_input
  unfold inputOf inputLines?
  rw [hword]
  induction lines with
  | nil => rfl
  | cons line lines ih =>
    have hrun := (hopened line List.mem_cons_self).isRun_iff
    have hrest := ih (fun l hl => hopened l (List.mem_cons_of_mem _ hl))
      (fun l hl => hjob l (List.mem_cons_of_mem _ hl))
    by_cases hopener : line.opener? = some "$RUN"
    · simp [hopener, hrun.2 hopener, decodeInput]
    · have hnot : line.isRun = false := by simpa using mt hrun.1 hopener
      simpa [hopener, hnot, hjob line List.mem_cons_self] using hrest

/-- A piece stands for what is read after its first `line`, if that line gives a name. -/
theorem segmentOf_of_name {line : Line} {rest : List Line} {name : String}
    (hopened : ∀ l ∈ rest.takeWhile (fun l => !l.isJob), l.IsOpened)
    (hname : line.name? = some name) (origin : String) (healthy : Bool) :
    segmentOf (line, rest.takeWhile fun l => !l.isJob) =
      (segment ⟨origin, rest, .code, name, healthy⟩).1 := by
  have hcode : Line.codeOf = Line.instruction := funext Line.codeOf_eq_instruction
  have hsub : ∀ l ∈ fromControl (rest.takeWhile fun l => !l.isJob),
      l ∈ rest.takeWhile fun l => !l.isJob := fun _ hl => (List.dropWhile_sublist _).subset hl
  have hinput := inputOf_eq (fun l hl => hopened l (hsub l hl)) fun l hl => by
    simpa using List.mem_takeWhile_imp (hsub l hl)
  rw [inputLines?_fromControl, inputLines?_takeWhile] at hinput
  rw [(segment_spec rfl).2, segmentOf, Line.nameOf_of_some hname, hcode, plainLines_takeWhile,
    hinput]
  rfl

/-- `segmentsUpTo` ends before its bound `n`, and gives what the parts of the lines stand for, or
the first error. -/
theorem segmentsUpTo_readsAll {n : Nat} (hpart : r.part ≠ .code)
    (hcount : r.rest.countP Line.isJob < n)
    (hopened : ∀ p ∈ parts r.rest, ∀ l ∈ p.2, l.IsOpened) :
    ReadsAll r (segmentsUpTo n r) ∧ (segmentsUpTo n r).1 = (parts r.rest).mapM segmentOf := by
  -- a segment takes the line that starts it, so these lines bound the number of segments
  induction n generalizing r with
  | zero => exact absurd hcount (Nat.not_lt_zero _)
  | succ n ih =>
    unfold segmentsUpTo
    rcases seekCode_cases hpart with
      ⟨hnone, hseek⟩ | ⟨line, rest, hparts, hless, ⟨hname, hseek⟩ | ⟨name, hname, hseek⟩⟩
    · rw [hseek, hnone]
      exact ⟨.ends hseek, rfl⟩
    · rw [hseek, hparts, List.mapM_cons, segmentOf, Line.nameOf_of_none hname]
      exact ⟨.badSearch hseek, rfl⟩
    · rw [hparts] at hopened
      have hsegment := segmentOf_of_name (hopened _ List.mem_cons_self) hname r.origin r.healthy
      have hreads := (@segment_spec ⟨r.origin, rest, .code, name, r.healthy⟩ rfl).1
      rw [hseek, hparts, List.mapM_cons, hsegment]
      simp only
      rcases hread : segment ⟨r.origin, rest, .code, name, r.healthy⟩ with ⟨answer, r₂⟩
      rw [hread] at hreads
      cases answer with
      | error e => exact ⟨.badSegment hseek hreads, rfl⟩
      | ok s =>
        have hgoes := segment_goesOn rfl hread
        have hjobs : r₂.rest.countP Line.isJob = rest.countP Line.isJob := hgoes.countP
        have hothers : parts r₂.rest = parts rest := hgoes.parts
        obtain ⟨hloop, hall⟩ := ih hgoes.part (by omega) fun p hp =>
          hopened p (List.mem_cons_of_mem _ (hothers ▸ hp))
        have hreadsAll := ReadsAll.segment hseek hreads hloop
        rw [hothers] at hall
        rw [← hall]
        revert hreadsAll
        simp only
        rcases segmentsUpTo n r₂ with ⟨answer, r₃⟩
        intro hreadsAll
        cases answer <;> exact ⟨hreadsAll, rfl⟩

end Reader

/-- For every `text` the loops that read its segments come to an end, without any bound on how often
they run. What they give is what the `pieces` that the text can be cut into stand for, one after the
other, or the first error among them. -/
theorem segments_eq_grammar (origin text : String) :
    Reader.ReadsAll (Reader.ofText origin text) (Reader.ofText origin text).segments ∧
    (∃ pieces, IsCut (linesOf text) pieces) ∧
    ∀ pieces, IsCut (linesOf text) pieces →
      (Reader.ofText origin text).segments.1 = pieces.mapM segmentOf := by
  have hopened : ∀ p ∈ parts (linesOf text), ∀ l ∈ p.2, l.IsOpened := fun p hp l hl =>
    isOpened_of_mem ((of_mem_parts hp).2.2 l hl).1
  obtain ⟨hloop, hall⟩ := @Reader.segmentsUpTo_readsAll (Reader.ofText origin text)
    ((linesOf text).length + 2) (by simp [Reader.ofText])
    (Nat.lt_succ_of_le (Nat.le_succ_of_le List.countP_le_length)) hopened
  refine ⟨hloop, ⟨parts (linesOf text), isCut_iff.2 rfl⟩, fun pieces hcut => ?_⟩
  rw [isCut_iff.1 hcut]
  exact hall

/-- Lines before the first job, a line that is neither code nor input, a second input section, and a
job whose only instruction has an operand too many. -/
def unusualText : String :=
  "5\n$RUN\n1\n$JOB a\n0\n$X\n5\n$RUN\n-7\n$RUN\n8\n$JOB b, c\n0 1\n$RUN\nx y\n"

/-- The first piece stands for a segment, and the first error is that of the second one's code. -/
theorem segments_eq_grammar_unusual :
    IsCut (linesOf unusualText) (parts (linesOf unusualText)) ∧
    (parts (linesOf unusualText)).map segmentOf =
      [.ok ⟨"a", [.nop], some [-7]⟩, .error (.badInstruction 13 (.wrongCount .nop 1))] ∧
    (Reader.ofText "" unusualText).segments.1 = (parts (linesOf unusualText)).mapM segmentOf := by
  have hcut : IsCut (linesOf unusualText) (parts (linesOf unusualText)) := isCut_iff.2 rfl
  exact ⟨hcut, by decide +kernel, (segments_eq_grammar "" unusualText).2.2 _ hcut⟩

end BatchMachine.JobText
