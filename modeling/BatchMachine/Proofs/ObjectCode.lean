import BatchMachine.JobText.Assembly
import BatchMachine.Proofs.Instructions
import BatchMachine.Proofs.WrittenLines

/-!
# Object code reads back

Object code that is written for segments reads as these segments again. It takes names that are
words and instructions with the operands of their operation, and both reading and assembling give
nothing else.

* `Segment.IsWellFormed`: the segments that can be written.
* `Segment.StandsIn`: the part of an object text that a segment stands in.
* `Reader.segments_eq_ok_iff`: what reading a text gives, part by part.
* `objectDialect`: how object code spells a segment.
* `object_round_trip`: what is written reads back.
-/

namespace BatchMachine

/-- `i` is an instruction that `ofOperands` or `ofFields` makes. -/
inductive Instruction.IsBuilt (i : Instruction) : Prop
  | ofOperands {opcode : Opcode} {operands : List Word} :
      Instruction.ofOperands opcode operands = .ok i → IsBuilt i
  | ofFields {fields : List Word} : Instruction.ofFields fields = .ok i → IsBuilt i

namespace Instruction

variable {i : Instruction} {opcode : Opcode} {operands : List Word}

/-- `ofOperands` keeps the operands that it is given. -/
theorem operands_of_ofOperands (h : ofOperands opcode operands = .ok i) :
    i.opcode = opcode ∧ i.operands = operands := by
  unfold ofOperands at h
  split at h
  case isTrue hcount =>
    cases h
    refine ⟨rfl, ?_⟩
    -- no operation has room for a fourth operand, so the list is one of four shapes
    have hmost := opcode.arity_le
    rw [Instruction.operands, slots]
    rcases operands with _ | ⟨a, _ | ⟨b, _ | ⟨c, _ | ⟨d, rest⟩⟩⟩⟩ <;>
      simp only [List.length_cons, List.length_nil] at hcount
    case cons.cons.cons.cons => omega
    all_goals simp [← hcount]
  case isFalse => simp at h

/-- An instruction `i` that is built can be built from its own operands. -/
theorem IsBuilt.ofOperands_operands (h : i.IsBuilt) :
    Instruction.ofOperands i.opcode i.operands = .ok i := by
  have hsame : ∀ {opcode : Opcode} {operands : List Word},
      Instruction.ofOperands opcode operands = .ok i →
      Instruction.ofOperands i.opcode i.operands = .ok i := by
    intro opcode operands hmade
    obtain ⟨hopcode, hoperands⟩ := operands_of_ofOperands hmade
    rw [hopcode, hoperands, hmade]
  cases h with
  | ofOperands hmade => exact hsame hmade
  | @ofFields fields hmade =>
    unfold Instruction.ofFields at hmade
    split at hmade
    · simp at hmade
    · split at hmade
      · simp at hmade
      · exact hsame hmade

/-- An instruction `i` that is built can be built from its own fields. -/
theorem IsBuilt.ofFields_fields (h : i.IsBuilt) : Instruction.ofFields i.fields = .ok i := by
  rw [fields, Instruction.ofFields]
  simp only [Opcode.ofCode?_code]
  exact h.ofOperands_operands

end Instruction

namespace JobText

/-- `s` can be written: its name is a word, and its instructions have the operands of their
operations. -/
structure Segment.IsWellFormed (s : Segment) : Prop where
  name : IsWord s.name
  code : ∀ i ∈ s.code, i.IsBuilt

/-! ## What reading gives -/

/-- The lines of the first input section among `lines` before the next job, if there is one. -/
def inputLines? (lines : List Line) : Option (List Line) :=
  match lines.dropWhile fun l => !l.isRun && !l.isJob with
  | [] => none
  | line :: rest => if line.isRun then some (plainLines rest) else none

/-- The segment `s` stands in `part`, a part of an object text. -/
structure Segment.StandsIn (part : Line × List Line) (s : Segment) : Prop where
  name : part.1.name? = some s.name
  code : List.Forall₂ (fun line i => line.instruction = .ok i) (plainLines part.2) s.code
  input : Option.Rel (List.Forall₂ fun line w => line.input = .ok w) (inputLines? part.2) s.input?

/-- `inputLines?` does not look past the next job. -/
theorem inputLines?_takeWhile (lines : List Line) :
    inputLines? (lines.takeWhile fun l => !l.isJob) = inputLines? lines := by
  induction lines with
  | nil => rfl
  | cons line lines ih =>
    unfold inputLines? at ih ⊢
    -- a line that starts a job starts no input section, so both searches stop at it
    cases hjob : line.isJob with
    | true => simp [hjob, Line.isRun_eq_false hjob]
    | false =>
      cases hrun : line.isRun with
      | true => simp [hjob, hrun, plainLines_takeWhile]
      | false => simpa [hjob, hrun] using ih

/-- `inputLines?` skips the lines of code. -/
theorem inputLines?_fromControl (lines : List Line) :
    inputLines? (fromControl lines) = inputLines? lines := by
  induction lines with
  | nil => rfl
  | cons line lines ih =>
    by_cases hcontrol : line.isControl = true
    · rw [fromControl_of_control hcontrol]
    · have hplain : line.isControl = false := by simpa using hcontrol
      rw [fromControl_of_plain hplain, ih]
      simp [inputLines?, Line.isRun, Line.isJob, Line.hasKeyword_eq_false hplain]

namespace Reader

variable {α : Type} {r r' : Reader}

/-- `r` has gone on to `r'` without failing, and is still before the next part. -/
structure GoesOn (r r' : Reader) : Prop where
  part : r'.part ≠ .code
  ahead : r'.ahead = r.ahead
  healthy : r'.healthy = r.healthy

/-- `collect` reads the lines of the section `part` to its end when all of them stand for
something. -/
theorem collect_eq_ok_iff (part after : Part) (decode : Line → Except ReadError α)
    {next : Reader → Reading (Option α)}
    (hnext : ∀ r : Reader, r.part = part → next r = r.readLine after decode) {n : Nat}
    {as : List α} (hpart : r.part = part) (hlength : r.rest.length < n) :
    (r.collect next n).1 = .ok as ↔
      List.Forall₂ (fun line a => decode line = .ok a) (plainLines r.rest) as := by
  constructor
  · intro h
    exact (collect_readLine part after decode hnext hpart hlength (Prod.ext h rfl)).1
  · -- the bound exceeds the number of lines, so the section ends before the bound does
    intro h
    induction n generalizing r as with
    | zero => exact absurd hlength (Nat.not_lt_zero _)
    | succ n ih =>
      unfold collect
      rw [hnext r hpart, readLine, takeLine]
      cases hrest : r.rest with
      | nil =>
        rw [hrest] at h
        cases h
        rfl
      | cons line rest =>
        rw [hrest] at h hlength
        by_cases hcontrol : line.isControl = true
        · rw [plainLines_of_control hcontrol] at h
          cases h
          simp [hcontrol]
        · have hplain : line.isControl = false := by simpa using hcontrol
          rw [plainLines_of_plain hplain] at h
          cases h with
          | cons hline h =>
            have hmore := ih (r := { r with rest }) hpart (by simpa using hlength) h
            simp only [hplain, Bool.false_eq_true, if_false, hline]
            rcases hcollect : collect next n { r with rest } with ⟨answer, r'⟩
            rw [hcollect] at hmore
            cases hmore
            rfl

/-- The reader `r` right before the next job. -/
def toNextJob (r : Reader) : Reader :=
  { r with rest := r.ahead }

/-- `seekInput` goes to the next job if there is no input section before it, and else to the start
of that section. -/
theorem seekInput_cases (hpart : r.part ≠ .input) :
    (inputLines? r.rest = none ∧ r.seekInput = (.ok false, r.toNextJob)) ∨
    ∃ rest, inputLines? r.rest = some (plainLines rest) ∧
      r.seekInput = (.ok true, { r with rest, part := .input }) ∧ jobLines rest = r.ahead := by
  have hahead := jobLines_dropWhile r.rest
  have hhead := List.head?_dropWhile_not (fun l : Line => !l.isRun && !l.isJob) r.rest
  unfold seekInput inputLines? toNextJob ahead
  rw [if_neg hpart]
  cases hseek : r.rest.dropWhile fun l => !l.isRun && !l.isJob with
  | nil =>
    rw [hseek] at hahead
    exact .inl ⟨rfl, by rw [← hahead]; rfl⟩
  | cons line rest =>
    rw [hseek] at hahead hhead
    simp only
    cases hrun : line.isRun with
    | true =>
      have hjob : line.isJob = false := Line.isJob_eq_false_of_isRun hrun
      rw [jobLines_cons hjob] at hahead
      exact .inr ⟨rest, rfl, rfl, hahead⟩
    | false =>
      have hjob : line.isJob = true := by simpa [hrun] using hhead
      refine .inl ⟨rfl, ?_⟩
      rw [← hahead]
      simp [jobLines, hjob]

/-- Past the code of a segment, `inputSection` finds no input section before the next job, or goes
on from the start of one. -/
theorem inputSection_cases (hpart : r.part = .afterCode) :
    (inputLines? r.rest = none ∧ ∃ r', r.inputSection = (.ok none, r') ∧ GoesOn r r') ∨
    ∃ r₁ : Reader, inputLines? r.rest = some (plainLines r₁.rest) ∧ r₁.part = .input ∧
      r₁.ahead = r.ahead ∧ r₁.healthy = r.healthy ∧
      r.inputSection = match r₁.readAll fetchInput with
        | (.ok input, r) => (.ok (some input), r)
        | (.error e, r) => (.error e, r) := by
  unfold inputSection
  have hnot : r.part ≠ .input := by simp [hpart]
  rcases seekInput_cases hnot with ⟨hnone, hseek⟩ | ⟨rest, hsome, hseek, hahead⟩
  · rw [hseek]
    exact .inl ⟨hnone, r.toNextJob, rfl, by simp [toNextJob, hpart],
      List.dropWhile_idempotent _ _, rfl⟩
  · rw [hseek]
    exact .inr ⟨{ r with rest, part := .input }, hsome, rfl, hahead, rfl, rfl⟩

/-- `fetchInput` reads an input section line by line. -/
theorem fetchInput_of_part : ∀ r : Reader, r.part = .input →
    r.fetchInput = r.readLine .afterInput Line.input :=
  fun r hpart => by rw [fetchInput, hpart]; rfl

/-- `inputSection` reads the input section before the next job, if there is one. -/
theorem inputSection_eq_ok_iff {input? : Option (List Word)} (hpart : r.part = .afterCode) :
    r.inputSection.1 = .ok input? ↔
      Option.Rel (List.Forall₂ fun line w => line.input = .ok w) (inputLines? r.rest) input? := by
  rcases inputSection_cases hpart with
    ⟨hnone, r', hread, _⟩ | ⟨r₁, hsome, hpart₁, _, _, hread⟩
  · rw [hread, hnone]
    constructor
    · rintro h
      cases h
      exact .none
    · rintro ⟨⟩
      rfl
  · -- the section is there, and all of its lines are read
    have hall := fun input => @collect_eq_ok_iff _ r₁ .input .afterInput Line.input _
      fetchInput_of_part _ input hpart₁ (Nat.lt_succ_self _)
    rw [hread, hsome, readAll]
    rcases hcollect : collect fetchInput (r₁.rest.length + 1) r₁ with ⟨answer, r'⟩
    rw [hcollect] at hall
    constructor
    · intro h
      cases answer with
      | error e => simp at h
      | ok input =>
        cases h
        exact .some ((hall input).1 rfl)
    · rintro (_ | ⟨h⟩)
      rename_i input h
      obtain rfl := (hall input).2 h
      rfl

theorem inputSection_goesOn {input? : Option (List Word)} (hpart : r.part = .afterCode)
    (h : r.inputSection = (.ok input?, r')) : GoesOn r r' := by
  rcases inputSection_cases hpart with
    ⟨_, r'', hread, hgoes⟩ | ⟨r₁, _, hpart₁, hahead, hhealthy, hread⟩
  · rw [hread] at h
    cases h
    exact hgoes
  · rw [hread] at h
    split at h
    case h_1 input r'' hcollect =>
      cases h
      obtain ⟨_, rfl⟩ := collect_readLine .input .afterInput Line.input fetchInput_of_part hpart₁
        (Nat.lt_succ_self _) hcollect
      exact ⟨by simp, (jobLines_fromControl _).trans hahead, hhealthy⟩
    case h_2 => simp at h

/-- `fetchInstruction` reads code line by line. -/
theorem fetchInstruction_of_part : ∀ r : Reader, r.part = .code →
    r.fetchInstruction = r.readLine .afterCode Line.instruction :=
  fun r hpart => by rw [fetchInstruction, hpart]; rfl

/-- The segment `s` whose code the reader `r` has entered. -/
theorem segment_eq_ok_iff {s : Segment} (hpart : r.part = .code) :
    r.segment.1 = .ok s ↔ s.name = r.name ∧
      List.Forall₂ (fun line i => line.instruction = .ok i) (plainLines r.rest) s.code ∧
      Option.Rel (List.Forall₂ fun line w => line.input = .ok w) (inputLines? r.rest) s.input? := by
  -- the code is read off the lines up to the next control line, or one of these is no instruction
  have hall := fun code => @collect_eq_ok_iff _ r .code .afterCode Line.instruction _
    fetchInstruction_of_part _ code hpart (Nat.lt_succ_self _)
  unfold segment
  rw [readAll]
  rcases hcollect : collect fetchInstruction (r.rest.length + 1) r with ⟨answer, r₁⟩
  rw [hcollect] at hall
  cases answer with
  | error e =>
    simp only [reduceCtorEq, false_iff] at hall ⊢
    exact fun h => hall _ h.2.1
  | ok code =>
    obtain ⟨hcode, rfl⟩ := collect_readLine .code .afterCode Line.instruction
      fetchInstruction_of_part hpart (Nat.lt_succ_self _) hcollect
    have hinput := fun input? => @inputSection_eq_ok_iff
      { r with rest := fromControl r.rest, part := .afterCode } input? rfl
    simp only [inputLines?_fromControl] at hinput
    rcases hsection : inputSection { r with rest := fromControl r.rest, part := .afterCode } with
      ⟨answer, r₂⟩
    rw [hsection] at hinput
    simp only [hsection]
    cases answer with
    | error e =>
      simp only [reduceCtorEq, false_iff] at hinput ⊢
      exact fun h => hinput _ h.2.2
    | ok input? =>
      simp only [Except.ok.injEq]
      constructor
      · rintro rfl
        exact ⟨rfl, hcode, (hinput _).1 rfl⟩
      · rintro ⟨hname, hcode', hinput'⟩
        obtain ⟨name, code', input'⟩ := s
        obtain rfl : name = r.name := hname
        -- code and input are determined by their lines, so the two segments are one
        obtain rfl := forall₂_decode_inj hcode hcode'
        obtain rfl := Except.ok.inj ((hinput _).2 hinput')
        rfl

theorem segment_goesOn {s : Segment} (hpart : r.part = .code) (h : r.segment = (.ok s, r')) :
    GoesOn r r' := by
  unfold segment at h
  split at h
  case h_1 => simp at h
  case h_2 code r₁ hcode =>
    obtain ⟨_, rfl⟩ := collect_readLine .code .afterCode Line.instruction
      fetchInstruction_of_part hpart (Nat.lt_succ_self _) hcode
    split at h
    case h_1 => simp at h
    case h_2 input? r₂ hinput =>
      cases h
      have hgoes := inputSection_goesOn rfl hinput
      exact ⟨hgoes.part, hgoes.ahead.trans (jobLines_fromControl _), hgoes.healthy⟩

theorem GoesOn.parts (h : GoesOn r r') : parts r'.rest = parts r.rest := by
  rw [← parts_jobLines r'.rest, show jobLines r'.rest = jobLines r.rest from h.ahead,
    parts_jobLines]

theorem GoesOn.countP (h : GoesOn r r') :
    r'.rest.countP Line.isJob = r.rest.countP Line.isJob := by
  rw [← countP_jobLines r'.rest, show jobLines r'.rest = jobLines r.rest from h.ahead,
    countP_jobLines]

/-- The segment `s` stands in a part when it is read after the first `line` of the part. -/
theorem standsIn_iff {line : Line} {name : String} (rest : List Line) (origin : String)
    (healthy : Bool) {s : Segment} (hname : line.name? = some name) :
    s.StandsIn (line, rest.takeWhile fun l => !l.isJob) ↔
      (segment ⟨origin, rest, .code, name, healthy⟩).1 = .ok s := by
  rw [segment_eq_ok_iff rfl]
  constructor
  · rintro ⟨hname', hcode, hinput⟩
    rw [plainLines_takeWhile] at hcode
    rw [inputLines?_takeWhile] at hinput
    exact ⟨Option.some.inj (hname'.symm.trans hname), hcode, hinput⟩
  · rintro ⟨hname', hcode, hinput⟩
    exact ⟨hname.trans (congrArg some hname'.symm), by rwa [plainLines_takeWhile],
      by rwa [inputLines?_takeWhile]⟩

/-- Outside of the code of a segment `seekCode` finds no further part, or enters the first one
unless its first line gives no name. -/
theorem seekCode_cases (hpart : r.part ≠ .code) :
    (parts r.rest = [] ∧ r.seekCode = (.ok false, { r with rest := [] })) ∨
    ∃ line rest, parts r.rest = (line, rest.takeWhile fun l => !l.isJob) :: parts rest ∧
      rest.countP Line.isJob < r.rest.countP Line.isJob ∧
      ((line.name? = none ∧ r.seekCode = fail { r with rest } (.missingJobName line.number)) ∨
        ∃ name, line.name? = some name ∧
          r.seekCode = (.ok true, ⟨r.origin, rest, .code, name, r.healthy⟩)) := by
  unfold seekCode
  rw [if_neg hpart]
  cases hseek : r.rest.dropWhile fun l => !l.isJob with
  | nil =>
    rw [← parts_jobLines, show jobLines r.rest = [] from hseek]
    exact .inl ⟨rfl, rfl⟩
  | cons line rest =>
    have hjobs : jobLines r.rest = line :: rest := hseek
    refine .inr ⟨line, rest, parts_of_jobLines hjobs, ?_, ?_⟩
    · rw [← countP_jobLines r.rest, hjobs, List.countP_cons_of_pos (isJob_of_jobLines hjobs)]
      exact Nat.lt_succ_self _
    · cases hname : line.name? with
      | none => exact .inl ⟨rfl, by simp [hname]⟩
      | some name => exact .inr ⟨name, rfl, by simp [hname]⟩

/-- `segmentsUpTo` gives the segments that stand in the parts of the text, and leaves the reader at
the end. -/
theorem segmentsUpTo_spec {n : Nat} (hpart : r.part ≠ .code)
    (hcount : r.rest.countP Line.isJob < n) :
    (∀ ss, (segmentsUpTo n r).1 = .ok ss ↔ List.Forall₂ Segment.StandsIn (parts r.rest) ss) ∧
      ((segmentsUpTo n r).1.isOk = true →
        (segmentsUpTo n r).2.atEnd = true ∧ (segmentsUpTo n r).2.healthy = r.healthy) := by
  -- a segment takes the line that starts it, so these lines bound the number of segments
  induction n generalizing r with
  | zero => exact absurd hcount (Nat.not_lt_zero _)
  | succ n ih =>
    unfold segmentsUpTo
    rcases seekCode_cases hpart with
      ⟨hnone, hseek⟩ | ⟨line, rest, hparts, hless, ⟨hname, hseek⟩ | ⟨name, hname, hseek⟩⟩
    · rw [hseek, hnone]
      refine ⟨fun ss => ⟨fun h => ?_, fun h => ?_⟩, fun _ => ⟨rfl, rfl⟩⟩
      · cases h
        exact .nil
      · cases h
        rfl
    · rw [hseek, hparts]
      refine ⟨fun ss => ⟨fun h => ?_, fun h => ?_⟩, fun h => ?_⟩
      · simp [fail] at h
      · cases h with
        | cons hstands _ =>
          have := hstands.name
          simp [hname] at this
      · simp [fail, Except.isOk, Except.toBool] at h
    · have hstands := fun s => standsIn_iff rest r.origin r.healthy (s := s) hname
      rw [hseek, hparts]
      simp only
      rcases hread : segment ⟨r.origin, rest, .code, name, r.healthy⟩ with ⟨answer, r₂⟩
      rw [hread] at hstands
      cases answer with
      | error e =>
        refine ⟨fun ss => ⟨fun h => by simp at h, fun h => ?_⟩,
          fun h => by simp [Except.isOk, Except.toBool] at h⟩
        cases h with
        | cons hfirst _ =>
          have := (hstands _).1 hfirst
          simp at this
      | ok s =>
        have hgoes := segment_goesOn rfl hread
        have hjobs₂ : r₂.rest.countP Line.isJob = rest.countP Line.isJob := hgoes.countP
        obtain ⟨hrest, hend⟩ := ih hgoes.part (by omega)
        rw [hgoes.parts] at hrest
        simp only
        rcases hothers : segmentsUpTo n r₂ with ⟨answer, r₃⟩
        rw [hothers] at hrest hend
        cases answer with
        | error e =>
          refine ⟨fun ss => ⟨fun h => by simp at h, fun h => ?_⟩,
            fun h => by simp [Except.isOk, Except.toBool] at h⟩
          cases h with
          | cons _ hothers =>
            have := (hrest _).2 hothers
            simp at this
        | ok ss =>
          refine ⟨fun ss' => ⟨fun h => ?_, fun h => ?_⟩, fun _ => ?_⟩
          · cases h
            exact .cons ((hstands s).2 rfl) ((hrest ss).1 rfl)
          · cases h with
            | cons hfirst hothers =>
              obtain rfl := Except.ok.inj ((hstands _).1 hfirst)
              obtain rfl := Except.ok.inj ((hrest _).2 hothers)
              rfl
          · exact ⟨(hend rfl).1, (hend rfl).2.trans hgoes.healthy⟩

/-- `segments` gives the segments that stand in the parts of the text. -/
theorem segments_eq_ok_iff {ss : List Segment} (hpart : r.part ≠ .code) :
    r.segments.1 = .ok ss ↔ List.Forall₂ Segment.StandsIn (parts r.rest) ss :=
  (segmentsUpTo_spec hpart (Nat.lt_succ_of_le (Nat.le_succ_of_le List.countP_le_length))).1 ss

/-- A text that `segments` has read without an error has been read to its end. -/
theorem atEnd_of_segments {ss : List Segment} (hpart : r.part ≠ .code)
    (h : r.segments.1 = .ok ss) :
    r.segments.2.atEnd = true ∧ r.segments.2.healthy = r.healthy := by
  refine (segmentsUpTo_spec hpart
    (Nat.lt_succ_of_le (Nat.le_succ_of_le List.countP_le_length))).2 ?_
  rw [show (segmentsUpTo (r.rest.length + 2) r).1 = .ok ss from h]
  rfl

end Reader

/-! ## What can be written -/

variable {s : Segment} {ss : List Segment} {text : String}

/-- A line of `linesOf text` is what `cleaned` leaves of a raw line. -/
theorem exists_cleaned_of_mem {line : Line} (h : line ∈ linesOf text) :
    ∃ raw, line.text = cleaned raw := by
  obtain ⟨⟨raw, number⟩, _, hkept⟩ := List.mem_filterMap.1 h
  simp only at hkept
  split at hkept
  · simp at hkept
  · cases hkept
    exact ⟨raw, rfl⟩

/-- The characters that `cleaned` leaves of `raw` are those before its comment, with commas turned
into blanks. -/
theorem exists_mem_of_mem_cleaned {raw : List Char} {c : Char} (h : c ∈ cleaned raw) :
    ∃ c' ∈ raw.takeWhile (· != '%'), (if c' = ',' then ' ' else c') = c := by
  rw [cleaned, Text.trim, List.mem_reverse] at h
  have hrest := (List.dropWhile_sublist _).subset h
  exact List.mem_map.1 ((List.dropWhile_sublist _).subset (List.mem_reverse.1 hrest))

/-- `cleaned` leaves no comment and no comma. -/
theorem ne_of_mem_cleaned {raw : List Char} {c : Char} (h : c ∈ cleaned raw) :
    c ≠ '%' ∧ c ≠ ',' := by
  obtain ⟨c', hc', rfl⟩ := exists_mem_of_mem_cleaned h
  have hpercent : c' ≠ '%' := by simpa using List.mem_takeWhile_imp hc'
  split
  · decide
  · rename_i hcomma
    exact ⟨hpercent, hcomma⟩

/-- Each `piece` of `cs` between separators holds characters of `cs`, and none of them is a
separator. -/
theorem of_mem_splitOnP {p : Char → Bool} {cs piece : List Char} (h : piece ∈ cs.splitOnP p) :
    ∀ c ∈ piece, c ∈ cs ∧ p c = false := by
  induction cs generalizing piece with
  | nil =>
    rw [List.splitOnP_nil, List.mem_singleton] at h
    simp [h]
  | cons x cs ih =>
    have hpieces : ∀ piece ∈ cs.splitOnP p, ∀ c ∈ piece, c ∈ x :: cs ∧ p c = false :=
      fun piece hpiece c hc => ⟨List.mem_cons_of_mem _ (ih hpiece c hc).1, (ih hpiece c hc).2⟩
    rw [List.splitOnP_cons_eq_if_modifyHead] at h
    split at h
    case isTrue =>
      rcases List.mem_cons.1 h with rfl | hmem
      · simp
      · exact hpieces piece hmem
    case isFalse hx =>
      obtain ⟨first, others, hsplit⟩ := List.exists_cons_of_ne_nil (List.splitOnP_ne_nil p cs)
      rw [hsplit] at h hpieces
      rcases List.mem_cons.1 h with rfl | hmem
      · intro c hc
        rcases List.mem_cons.1 hc with rfl | hc
        · exact ⟨by simp, by simpa using hx⟩
        · exact hpieces first (by simp) c hc
      · exact hpieces piece (List.mem_cons_of_mem _ hmem)

/-- The tokens of a `line` of `text` are words. -/
theorem isWord_of_mem_tokens {line : Line} {w : String} (hline : line ∈ linesOf text)
    (hw : w ∈ line.tokens) : IsWord w := by
  obtain ⟨raw, hraw⟩ := exists_cleaned_of_mem hline
  rw [Line.tokens, Text.words, List.mem_map] at hw
  obtain ⟨cs, hcs, rfl⟩ := hw
  obtain ⟨hpiece, hnonempty⟩ := List.mem_filter.1 hcs
  refine ⟨fun hempty => ?_, fun c hc => ?_⟩
  · rw [String.ofList_eq_empty_iff] at hempty
    simp [hempty] at hnonempty
  · obtain ⟨hmem, hblank⟩ := of_mem_splitOnP hpiece c (by simpa using hc)
    rw [hraw] at hmem
    exact ⟨hblank, ne_of_mem_cleaned hmem⟩

/-- The name that a `part` of `text` gives is a word. -/
theorem isWord_name {part : Line × List Line} {name : String} (hpart : part ∈ parts (linesOf text))
    (hname : part.1.name? = some name) : IsWord name :=
  -- the name is a token of the line that starts the part
  isWord_of_mem_tokens (of_mem_parts hpart).1 (List.mem_of_getElem? hname)

/-- `mapM` gives the list `bs` if `f` gives its items one by one. -/
theorem mapM_eq_ok_iff {α β ε : Type} {f : α → Except ε β} {as : List α} {bs : List β} :
    as.mapM f = .ok bs ↔ List.Forall₂ (fun a b => f a = .ok b) as bs := by
  induction as generalizing bs with
  | nil => simp [pure, Except.pure, eq_comm]
  | cons a as ih =>
    rw [List.mapM_cons]
    constructor
    · intro h
      obtain ⟨b, hb, h⟩ := ok_of_bind h
      obtain ⟨bs', hbs', h⟩ := ok_of_bind h
      cases h
      exact .cons hb (ih.1 hbs')
    · intro h
      cases h with
      | cons hb hbs =>
        rw [hb, ih.2 hbs]
        rfl

/-- The instruction `i` on a `line` of object code is built from its fields. -/
theorem isBuilt_of_instruction {line : Line} {i : Instruction} (h : line.instruction = .ok i) :
    i.IsBuilt := by
  obtain ⟨fields, _, h⟩ := ok_of_bind h
  split at h
  case h_1 hmade =>
    cases h
    exact .ofFields hmade
  case h_2 => simp at h

/-- The instruction `i` of a `statement` is built from its operands. -/
theorem isBuilt_of_encode {labels : Labels} {index : Nat} {statement : Statement} {i : Instruction}
    (h : encode labels index statement = .ok i) : i.IsBuilt := by
  obtain ⟨operands, _, h⟩ := ok_of_bind h
  split at h
  case h_1 hmade =>
    cases h
    exact .ofOperands hmade
  case h_2 => simp at h

/-- The segments that `segments` gives can be written. -/
theorem isWellFormed_of_segments {origin : String}
    (h : (Reader.ofText origin text).segments.1 = .ok ss) (hs : s ∈ ss) : s.IsWellFormed := by
  have hparts := (Reader.segments_eq_ok_iff (by simp [Reader.ofText])).1 h
  obtain ⟨part, hpart, hstands⟩ := exists_of_forall₂ hparts hs
  refine ⟨isWord_name hpart hstands.name, fun i hi => ?_⟩
  obtain ⟨line, _, hline⟩ := exists_of_forall₂ hstands.code hi
  exact isBuilt_of_instruction hline

/-- The segments that `assemble` gives can be written. -/
theorem isWellFormed_of_assemble (h : assemble text = .ok ss) (hs : s ∈ ss) : s.IsWellFormed := by
  obtain ⟨⟨job, lines⟩, hpart, hassembled⟩ := exists_of_forall₂ (mapM_eq_ok_iff.1 h) hs
  simp only [assemblePart] at hassembled
  split at hassembled
  case h_1 => simp at hassembled
  case h_2 name hname =>
    obtain ⟨code, hcode, hassembled⟩ := ok_of_bind hassembled
    obtain ⟨input?, _, hassembled⟩ := ok_of_bind hassembled
    cases hassembled
    refine ⟨isWord_name hpart hname, fun i hi => ?_⟩
    obtain ⟨⟨labels, statements⟩, _, hcode⟩ := ok_of_bind hcode
    obtain ⟨_, _, hencoded⟩ := exists_of_forall₂ (mapM_eq_ok_iff.1 hcode) hi
    exact isBuilt_of_encode hencoded

/-! ## Written object code -/

/-- How object code spells segments: in hexadecimal fields. -/
def objectDialect : Dialect where
  code i := i.fields.map Numeral.hex
  numeral := Numeral.hex
  code_plain i := by
    refine ⟨fun w hw => ?_, _, _, rfl, (isWord_format (by decide) (by decide) _).2⟩
    obtain ⟨field, _, rfl⟩ := List.mem_map.1 hw
    exact (isWord_format (by decide) (by decide) field).1
  numeral_plain w := by
    obtain ⟨hword, hfirst⟩ := isWord_format (show 1 < 16 by decide) (by decide) w
    exact ⟨fun s hs => List.mem_singleton.1 hs ▸ hword, _, _, rfl, hfirst⟩

/-- The lines of object code say the words of the segment `s`. -/
theorem says_objectLines (hname : IsWord s.name) :
    List.Forall₂ Says s.objectLines (objectDialect.spelling s) := by
  refine objectDialect.says_spelling hname ?_
  rw [List.forall₂_map_left_iff, List.forall₂_map_right_iff, List.forall₂_same]
  exact fun i _ => says_intercalate (objectDialect.code_plain i).words

/-- A `line` of fields in hexadecimal is the instruction `i` that they are the fields of. -/
theorem instruction_of_tokens {line : Line} {i : Instruction} (hbuilt : i.IsBuilt)
    (h : line.tokens = objectDialect.code i) : line.instruction = .ok i := by
  have hfields : line.fields = .ok i.fields := by
    rw [Line.fields, h, mapM_eq_ok_iff]
    refine List.forall₂_map_left_iff.2 (List.forall₂_same.2 fun w _ => ?_)
    simp only [Numeral.hex, Numeral.parse?_format (show 1 < 16 by decide) (by decide)]
  rw [Line.instruction, hfields]
  simp only [bind, Except.bind, hbuilt.ofFields_fields]

theorem input_of_tokens {line : Line} {w : Word} (h : line.tokens = [objectDialect.numeral w]) :
    line.input = .ok w := by
  rw [Line.input, Line.onlyWord?, h]
  simp only [objectDialect, Numeral.hex, Numeral.parse?_format (show 1 < 16 by decide) (by decide)]

/-- A segment `s` stands in the `part` that sets it out in object code. -/
theorem standsIn_of_setsOut {part : Line × List Line} (hs : s.IsWellFormed)
    (h : objectDialect.SetsOut part s) : s.StandsIn part := by
  refine ⟨h.name, ?_, ?_⟩
  · exact forall₂_imp_of_mem h.code fun line i hi htokens =>
      instruction_of_tokens (hs.code i hi) htokens
  · have hinput := h.input
    rw [← inputLines?_fromControl]
    generalize fromControl part.2 = lines at hinput ⊢
    generalize s.input? = input? at hinput ⊢
    cases hinput with
    | none => exact .none
    | @some run lines input hrun hinput =>
      have hsection : inputLines? (run :: lines) = some (plainLines lines) := by
        simp [inputLines?, hrun]
      rw [hsection]
      exact .some (hinput.imp fun line w htokens => input_of_tokens htokens)

/-- What `objectText` writes for the segments `ss` reads as `ss` again. -/
theorem segments_objectText (origin : String) (h : ∀ s ∈ ss, s.IsWellFormed) :
    ∃ r, (Reader.ofText origin (objectText ss)).segments = (.ok ss, r) ∧
      r.healthy = true ∧ r.atEnd = true := by
  have hsets := objectDialect.setsOut_unlines [] (by simp)
    fun s hs => says_objectLines (h s hs).name
  have hread : (Reader.ofText origin (objectText ss)).segments.1 = .ok ss := by
    rw [Reader.segments_eq_ok_iff (by simp [Reader.ofText])]
    exact forall₂_imp_of_mem hsets fun part s hs hset => standsIn_of_setsOut (h s hs) hset
  obtain ⟨hend, hhealthy⟩ := Reader.atEnd_of_segments (by simp [Reader.ofText]) hread
  exact ⟨_, Prod.ext hread rfl, hhealthy, hend⟩

/-- Well-formed segments `ss` read back from the object code that `objectText` writes for them.
`assemble` and `segments` give well-formed segments, so an assembled text reads as what was
assembled, and what has been read reads as itself when it is written again. -/
theorem object_round_trip :
    (∀ (origin : String) (ss : List Segment), (∀ s ∈ ss, s.IsWellFormed) →
      ∃ r, (Reader.ofText origin (objectText ss)).segments = (.ok ss, r) ∧
        r.healthy = true ∧ r.atEnd = true) ∧
    (∀ (source : String) (ss : List Segment), assemble source = .ok ss →
      (∀ s ∈ ss, s.IsWellFormed) ∧ ∃ object, assembleText source = .ok object ∧
        ∀ origin, (Reader.ofText origin object).segments.1 = .ok ss) ∧
    ∀ (origin text : String) (ss : List Segment),
      (Reader.ofText origin text).segments.1 = .ok ss →
      (∀ s ∈ ss, s.IsWellFormed) ∧
        ∀ origin', (Reader.ofText origin' (objectText ss)).segments.1 = .ok ss := by
  have hreads : ∀ (origin : String) {ss : List Segment}, (∀ s ∈ ss, s.IsWellFormed) →
      (Reader.ofText origin (objectText ss)).segments.1 = .ok ss := by
    intro origin ss h
    obtain ⟨r, hread, _⟩ := segments_objectText origin h
    rw [hread]
  refine ⟨fun origin ss h => segments_objectText origin h, fun source ss h => ?_,
    fun origin text ss h => ?_⟩
  · have hwell : ∀ s ∈ ss, s.IsWellFormed := fun s hs => isWellFormed_of_assemble h hs
    refine ⟨hwell, objectText ss, ?_, fun origin => hreads origin hwell⟩
    rw [assembleText, h]
    rfl
  · have hwell : ∀ s ∈ ss, s.IsWellFormed := fun s hs => isWellFormed_of_segments h hs
    exact ⟨hwell, fun origin' => hreads origin' hwell⟩

/-- A segment with the least word among its operands and an input section without words, and one
with neither code nor input. -/
def edgeSegments : List Segment :=
  [⟨"least", [⟨.movi, 1, -2147483648, 0⟩, .nop], some []⟩, ⟨"x", [], none⟩]

/-- The least word, an empty section and a job without code make the round trip. -/
theorem object_round_trip_edge :
    ((∀ s ∈ edgeSegments, s.IsWellFormed) ∧
      ∃ r, (Reader.ofText "" (objectText edgeSegments)).segments = (.ok edgeSegments, r) ∧
        r.healthy = true ∧ r.atEnd = true) ∧
    (assemble "$JOB least\nMOVI 1, -2147483648\nNOP\n$RUN\n$JOB x\n" = .ok edgeSegments ∧
      ∃ object, assembleText "$JOB least\nMOVI 1, -2147483648\nNOP\n$RUN\n$JOB x\n" = .ok object ∧
        ∀ origin, (Reader.ofText origin object).segments.1 = .ok edgeSegments) ∧
    ((Reader.ofText "" "$JOB least\n2 1 -80000000\n0\n$RUN\n$JOB x\n").segments.1 =
        .ok edgeSegments ∧
      ∀ origin', (Reader.ofText origin' (objectText edgeSegments)).segments.1 =
        .ok edgeSegments) := by
  obtain ⟨hwrites, hassembles, hreads⟩ := object_round_trip
  have hsource : assemble "$JOB least\nMOVI 1, -2147483648\nNOP\n$RUN\n$JOB x\n" =
      .ok edgeSegments := by
    decide +kernel
  have htext : (Reader.ofText "" "$JOB least\n2 1 -80000000\n0\n$RUN\n$JOB x\n").segments.1 =
      .ok edgeSegments := by
    decide +kernel
  obtain ⟨hwell, hobject⟩ := hassembles _ _ hsource
  exact ⟨⟨hwell, hwrites _ _ hwell⟩, ⟨hsource, hobject⟩, htext, (hreads _ _ _ htext).2⟩

end JobText

end BatchMachine
