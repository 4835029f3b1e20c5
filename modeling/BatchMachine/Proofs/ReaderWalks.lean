import Mathlib.Data.List.DropRight
import BatchMachine.Proofs.Sections

/-!
# Any walk of a reader

The four operations of a reader can be called in any order. The lines that have been passed tell
which segment is the current one: the one that the last of them that starts a job belongs to. As
long as no operation has failed, a reader only goes forward, what it hands over is read off the
line it passed last, and that line stands where it should in the current segment.

* `Call`, `Answer`, `Reader.perform`: the operations and their answers.
* `Walk`: the calls that have been made so far, and the reader after them.
* `currentJob?`, `currentLines`: the current segment, as far as it has been passed.
* `Reader.Stands`: what the lines passed tell about a reader; `Reader.perform_serves`: every
  operation keeps it.
* `Walked.call`, `Walk.walked`: what one more call does, and what all calls of a walk have done.
* `walk_safe`: what holds of every walk through a text.
-/

namespace BatchMachine.JobText

variable {past read lines skipped : List Line} {line : Line}

theorem Line.isJob_eq_false (h : line.isControl = false) : line.isJob = false :=
  Line.hasKeyword_eq_false h _

/-! ## The current segment -/

/-- The line that started the current segment, if one did: the last line of `past` that starts a
job. -/
def currentJob? (past : List Line) : Option Line :=
  (past.filter Line.isJob).getLast?

/-- The lines of the current segment among `past`, but for the one that started it. Before the first
segment these are all lines passed. -/
def currentLines (past : List Line) : List Line :=
  past.rtakeWhile fun l => !l.isJob

/-- The lines `past` end in the code of a segment: no control line has come since the line that
started it. -/
structure EndsInCode (past : List Line) : Prop where
  job : (currentJob? past).isSome = true
  plain : ∀ l ∈ currentLines past, l.isControl = false

/-- The lines `past` end in an input section of the current segment: no control line has come since
one of its lines that start the input. -/
def EndsInInput (past : List Line) : Prop :=
  ∃ front run words, currentLines past = front ++ run :: words ∧
    run.isRun = true ∧ ∀ l ∈ words, l.isControl = false

/-- `name` is that of the current segment, which the line gives that started it. There is no name
before the first segment. -/
def IsCurrentName (past : List Line) (name : String) : Prop :=
  match currentJob? past with
  | some job => job.name? = some name
  | none => name = ""

theorem currentJob?_append (h : ∀ l ∈ skipped, l.isJob = false) :
    currentJob? (past ++ skipped) = currentJob? past := by
  have hnone : skipped.filter Line.isJob = [] := by
    rw [List.filter_eq_nil_iff]
    intro l hl
    simp [h l hl]
  rw [currentJob?, currentJob?, List.filter_append, hnone, List.append_nil]

theorem currentLines_append (h : ∀ l ∈ skipped, l.isJob = false) :
    currentLines (past ++ skipped) = currentLines past ++ skipped := by
  induction skipped using List.reverseRecOn with
  | nil => simp
  | append_singleton front last ih =>
    have hlast : last.isJob = false := h last (by simp)
    have hfront := ih fun l hl => h l (List.mem_append_left _ hl)
    rw [currentLines, ← List.append_assoc, List.rtakeWhile_concat_pos _ _ _ (by simp [hlast])]
    rw [← currentLines, hfront, List.append_assoc]

theorem currentJob?_concat (h : line.isJob = true) :
    currentJob? (past ++ [line]) = some line := by
  simp [currentJob?, h]

theorem currentLines_concat (h : line.isJob = true) : currentLines (past ++ [line]) = [] :=
  List.rtakeWhile_concat_neg _ _ _ (by simp [h])

theorem EndsInCode.of_job (h : line.isJob = true) : EndsInCode (past ++ [line]) where
  job := by rw [currentJob?_concat h]; rfl
  plain := by rw [currentLines_concat h]; simp

theorem EndsInInput.of_run (h : line.isRun = true) (hjob : line.isJob = false) :
    EndsInInput (past ++ [line]) :=
  ⟨currentLines past, line, [], currentLines_append (by simpa using hjob), h, by simp⟩

theorem EndsInCode.concat (h : EndsInCode past) (hplain : line.isControl = false) :
    EndsInCode (past ++ [line]) := by
  have hjob : ∀ l ∈ [line], l.isJob = false := by
    simpa using Line.isJob_eq_false hplain
  refine ⟨by rw [currentJob?_append hjob]; exact h.job, fun l hl => ?_⟩
  rw [currentLines_append hjob, List.mem_append, List.mem_singleton] at hl
  rcases hl with hl | rfl
  · exact h.plain l hl
  · exact hplain

theorem EndsInInput.concat (h : EndsInInput past) (hplain : line.isControl = false) :
    EndsInInput (past ++ [line]) := by
  obtain ⟨front, run, words, hlines, hrun, hwords⟩ := h
  have hjob : ∀ l ∈ [line], l.isJob = false := by
    simpa using Line.isJob_eq_false hplain
  refine ⟨front, run, words ++ [line], ?_, hrun, fun l hl => ?_⟩
  · rw [currentLines_append hjob, hlines, List.append_assoc, List.cons_append]
  · rw [List.mem_append, List.mem_singleton] at hl
    rcases hl with hl | rfl
    · exact hwords l hl
    · exact hplain

theorem IsCurrentName.append {name : String} (h : IsCurrentName past name)
    (hjob : ∀ l ∈ skipped, l.isJob = false) : IsCurrentName (past ++ skipped) name := by
  unfold IsCurrentName at h ⊢
  rwa [currentJob?_append hjob]

/-! ## Walks -/

/-- The operations of a reader. -/
inductive Call where
  /-- Go to the code of a segment. -/
  | seekCode
  /-- Go to the input of a segment. -/
  | seekInput
  /-- Read an instruction. -/
  | fetchInstruction
  /-- Read an input word. -/
  | fetchInput
  deriving DecidableEq

/-- What an operation that has not failed answers. -/
inductive Answer where
  /-- Whether there is such a section. -/
  | section (found : Bool)
  /-- An instruction, or none when the code is over. -/
  | instruction (i? : Option Instruction)
  /-- An input word, or none when the input is over. -/
  | word (w? : Option Word)
  deriving DecidableEq

/-- The answer hands over an instruction or a word. -/
def Answer.handsOver : Answer → Bool
  | .section _ => false
  | .instruction i? => i?.isSome
  | .word w? => w?.isSome

/-- The answer hands over what `line` stands for. This is no control line, and the lines `past`
before it end in a section of the current segment that has such lines. -/
inductive Answer.IsReadOff (past : List Line) (line : Line) : Answer → Prop
  | instruction {i : Instruction} (hplain : line.isControl = false)
      (hline : line.instruction = .ok i) (hcode : EndsInCode past) :
      IsReadOff past line (.instruction (some i))
  | word {w : Word} (hplain : line.isControl = false) (hline : line.input = .ok w)
      (hinput : EndsInInput past) : IsReadOff past line (.word (some w))

namespace Reader

variable {α : Type} {r r' r'' : Reader} {call : Call} {answer : Answer}

/-- What `r` answers to a call, and the reader after it. -/
def perform (r : Reader) : Call → Reading Answer
  | .seekCode => (r.seekCode.1.map .section, r.seekCode.2)
  | .seekInput => (r.seekInput.1.map .section, r.seekInput.2)
  | .fetchInstruction => (r.fetchInstruction.1.map .instruction, r.fetchInstruction.2)
  | .fetchInput => (r.fetchInput.1.map .word, r.fetchInput.2)

/-- How many of `lines` the reader `r` has passed. -/
def position (lines : List Line) (r : Reader) : Nat :=
  lines.length - r.rest.length

/-- The lines that `r` has passed among `lines`. -/
def passed (lines : List Line) (r : Reader) : List Line :=
  lines.take (r.position lines)

theorem position_eq (h : lines = skipped ++ r.rest) : r.position lines = skipped.length := by
  simp [position, h]

theorem passed_eq (h : lines = skipped ++ r.rest) : r.passed lines = skipped := by
  rw [passed, position_eq h, h, List.take_left]

end Reader

/-- A call and its answer, with the reader before and after it. -/
structure Visit where
  /-- The reader before the call. -/
  before : Reader
  /-- The call. -/
  call : Call
  /-- The answer. -/
  answer : Answer
  /-- The reader after the call. -/
  after : Reader

/-- From `first` these calls lead to a reader, and none of them has failed. The last one comes
first. -/
inductive Walk (first : Reader) : List Visit → Reader → Prop
  | start : Walk first [] first
  | call {visits : List Visit} {r r' : Reader} {call : Call} {answer : Answer}
      (hwalk : Walk first visits r) (hcall : r.perform call = (.ok answer, r')) :
      Walk first (⟨r, call, answer, r'⟩ :: visits) r'

namespace Visit

variable {v : Visit}

/-- The number of the line that the call `v` reads off, counted from zero: the last one passed. -/
def index? (lines : List Line) (v : Visit) : Option Nat :=
  if v.answer.handsOver then some (v.after.position lines - 1) else none

/-- What holds of the call `v`: the reader does not go back, and what is handed over is read off the
line that this call has passed last. -/
structure IsSafe (lines : List Line) (v : Visit) : Prop where
  forward : v.before.position lines ≤ v.after.position lines
  readOff : v.answer.handsOver = true →
    v.before.position lines < v.after.position lines ∧
    ∃ line, lines[v.after.position lines - 1]? = some line ∧
      v.answer.IsReadOff (v.after.passed lines) line

end Visit

/-! ## What one call does -/

namespace Reader

variable {α : Type} {r r' r'' : Reader} {call : Call} {answer : Answer}

/-- The next line of `r` is there and is no control line. -/
def onPlain (r : Reader) : Bool :=
  r.rest.head?.any fun l => !l.isControl

/-- What the lines `past` tell about the reader `r`. A search that finds nothing leaves the part as
it was and the lines somewhere else, but then there is no line to read. -/
structure Stands (past : List Line) (r : Reader) : Prop where
  name : IsCurrentName past r.name
  code : r.part = .code → r.onPlain = true → EndsInCode past
  input : r.part = .input → r.onPlain = true → EndsInInput past

/-- From `r` to `r'` the lines `read` are read, and `r'` stands behind them. -/
structure Reads (past : List Line) (r : Reader) (read : List Line) (r' : Reader) : Prop where
  rest : r.rest = read ++ r'.rest
  stands : r'.Stands (past ++ read)

theorem Reads.stay (h : r.Stands past) : Reads past r [] r :=
  ⟨rfl, by rwa [List.append_nil]⟩

theorem Reads.trans {read' : List Line} (h : Reads past r read r')
    (h' : Reads (past ++ read) r' read' r'') : Reads past r (read ++ read') r'' :=
  ⟨by rw [h.rest, h'.rest, List.append_assoc], by rw [← List.append_assoc]; exact h'.stands⟩

/-- `seekCode` ends in the code of a segment, or at the end of the text. -/
theorem seekCode_reads {found : Bool} (hs : r.Stands past) (h : r.seekCode = (.ok found, r')) :
    ∃ read, Reads past r read r' ∧ (found = true → r'.part = .code) := by
  unfold seekCode at h
  split at h
  case isTrue hpart =>
    cases h
    exact ⟨[], .stay hs, fun _ => hpart⟩
  case isFalse =>
    have hsplit := List.takeWhile_append_dropWhile (p := fun l : Line => !l.isJob) (l := r.rest)
    have hjob : ∀ l ∈ r.rest.takeWhile fun l => !l.isJob, l.isJob = false := fun l hl => by
      simpa using List.mem_takeWhile_imp hl
    -- only that none of the skipped lines starts a job is used of them
    generalize r.rest.takeWhile (fun l => !l.isJob) = skipped at hsplit hjob
    split at h
    case h_1 hseek =>
      cases h
      rw [hseek, List.append_nil] at hsplit
      exact ⟨skipped, ⟨by simp [hsplit], hs.name.append hjob, by simp [onPlain], by simp [onPlain]⟩,
        by simp⟩
    case h_2 line rest hseek =>
      have hline : line.isJob = true := by
        simpa [hseek] using List.head?_dropWhile_not (fun l : Line => !l.isJob) r.rest
      rw [hseek] at hsplit
      split at h
      case h_1 name hname =>
        cases h
        refine ⟨skipped ++ [line], ⟨by simp [← hsplit], ?_, ?_, by simp⟩, fun _ => rfl⟩
        · rw [← List.append_assoc, IsCurrentName, currentJob?_concat hline]
          exact hname
        · rw [← List.append_assoc]
          exact fun _ _ => .of_job hline
      case h_2 => simp [fail] at h

/-- `seekInput` ends in the input of a segment, or at a line that starts a job, or at the end of the
text. -/
theorem seekInput_reads {found : Bool} (hs : r.Stands past)
    (h : r.seekInput = (.ok found, r')) :
    ∃ read, Reads past r read r' ∧ (found = true → r'.part = .input) := by
  unfold seekInput at h
  split at h
  case isTrue hpart =>
    cases h
    exact ⟨[], .stay hs, fun _ => hpart⟩
  case isFalse =>
    have hsplit := List.takeWhile_append_dropWhile
      (p := fun l : Line => !l.isRun && !l.isJob) (l := r.rest)
    have hjob : ∀ l ∈ r.rest.takeWhile fun l => !l.isRun && !l.isJob, l.isJob = false :=
      fun l hl => (by simpa using List.mem_takeWhile_imp hl : l.isRun = false ∧ l.isJob = false).2
    generalize r.rest.takeWhile (fun l => !l.isRun && !l.isJob) = skipped at hsplit hjob
    split at h
    case h_1 hseek =>
      cases h
      rw [hseek, List.append_nil] at hsplit
      exact ⟨skipped, ⟨by simp [hsplit], hs.name.append hjob, by simp [onPlain], by simp [onPlain]⟩,
        by simp⟩
    case h_2 line rest hseek =>
      have hline : line.isRun = true ∨ line.isJob = true := by
        have hhead := List.head?_dropWhile_not (fun l : Line => !l.isRun && !l.isJob) r.rest
        rw [hseek] at hhead
        simpa [Decidable.or_iff_not_imp_left] using hhead
      rw [hseek] at hsplit
      split at h
      case isTrue hrun =>
        cases h
        have hnot : line.isJob = false := Line.isJob_eq_false_of_isRun hrun
        refine ⟨skipped ++ [line], ⟨by simp [← hsplit], hs.name.append ?_, by simp, ?_⟩,
          fun _ => rfl⟩
        · intro l hl
          rcases List.mem_append.1 hl with hl | hl
          · exact hjob l hl
          · rwa [List.mem_singleton.1 hl]
        · rw [← List.append_assoc]
          exact fun _ _ => .of_run hrun hnot
      case isFalse hrun =>
        cases h
        -- the reader stands before a control line, so there is nothing to read
        have hcontrol : line.isControl = true := by
          have hkey := hline.resolve_left hrun
          simp only [Line.isJob, Line.hasKeyword, Bool.and_eq_true] at hkey
          exact hkey.1
        exact ⟨skipped, ⟨by simp [← hsplit], hs.name.append hjob, by simp [onPlain, hcontrol],
          by simp [onPlain, hcontrol]⟩, by simp⟩

/-- `readLine` takes one line of a section, unless the section is over. -/
theorem readLine_reads {after : Part} {decode : Line → Except ReadError α} {a? : Option α}
    (hcode : after ≠ .code) (hinput : after ≠ .input) (hs : r.Stands past)
    (h : r.readLine after decode = (.ok a?, r')) :
    ∃ read, Reads past r read r' ∧ ∀ a, a? = some a → ∃ line, read = [line] ∧
      line.isControl = false ∧ decode line = .ok a ∧ r.onPlain = true := by
  unfold readLine takeLine at h
  -- when the section is over, the part is neither the code nor the input
  have hover : Reads past r [] { r with part := after } :=
    ⟨rfl, by
      rw [List.append_nil]
      exact ⟨hs.name, fun h => absurd h hcode, fun h => absurd h hinput⟩⟩
  cases hrest : r.rest with
  | nil =>
    rw [hrest] at h
    cases h
    exact ⟨[], by simpa [hrest] using hover, by simp⟩
  | cons line rest =>
    rw [hrest] at h
    cases hcontrol : line.isControl with
    | true =>
      simp only [hcontrol, if_true] at h
      cases h
      exact ⟨[], by simpa [hrest] using hover, by simp⟩
    | false =>
      simp only [hcontrol, Bool.false_eq_true, if_false] at h
      have honPlain : r.onPlain = true := by simp [onPlain, hrest, hcontrol]
      cases hdecode : decode line with
      | error e => simp [hdecode, fail] at h
      | ok a =>
        simp only [hdecode] at h
        cases h
        refine ⟨[line], ⟨by simp [hrest], ?_, ?_, ?_⟩, ?_⟩
        · exact hs.name.append (by simpa using Line.isJob_eq_false hcontrol)
        · exact fun hpart _ => (hs.code hpart honPlain).concat hcontrol
        · exact fun hpart _ => (hs.input hpart honPlain).concat hcontrol
        · rintro _ ⟨⟩
          exact ⟨line, rfl, hcontrol, hdecode, honPlain⟩

/-- A call with this `answer` leads from `r` to `r'`. What it hands over is read off the last line
that it passes. -/
def Serves (past : List Line) (r : Reader) (answer : Answer) (r' : Reader) : Prop :=
  ∃ read, Reads past r read r' ∧ (answer.handsOver = true →
    ∃ line, read.getLast? = some line ∧ answer.IsReadOff (past ++ read) line)

theorem Serves.stay (hs : r.Stands past) (h : answer.handsOver = false) :
    Serves past r answer r :=
  ⟨[], .stay hs, by simp [h]⟩

theorem readInstruction_serves {i? : Option Instruction} (hs : r.Stands past)
    (hpart : r.part = .code) (h : r.readInstruction = (.ok i?, r')) :
    Serves past r (.instruction i?) r' := by
  obtain ⟨read, hreads, hline⟩ := readLine_reads (by simp) (by simp) hs h
  refine ⟨read, hreads, fun hsome => ?_⟩
  obtain ⟨i, rfl⟩ := Option.isSome_iff_exists.1 hsome
  obtain ⟨line, rfl, hplain, hdecode, hnext⟩ := hline i rfl
  exact ⟨line, rfl, .instruction hplain hdecode ((hs.code hpart hnext).concat hplain)⟩

theorem readInput_serves {w? : Option Word} (hs : r.Stands past) (hpart : r.part = .input)
    (h : r.readInput = (.ok w?, r')) : Serves past r (.word w?) r' := by
  obtain ⟨read, hreads, hline⟩ := readLine_reads (by simp) (by simp) hs h
  refine ⟨read, hreads, fun hsome => ?_⟩
  obtain ⟨w, rfl⟩ := Option.isSome_iff_exists.1 hsome
  obtain ⟨line, rfl, hplain, hdecode, hnext⟩ := hline w rfl
  exact ⟨line, rfl, .word hplain hdecode ((hs.input hpart hnext).concat hplain)⟩

/-- Entering a section passes the lines that the search `advance` passes, and then those that the
first read `next` does. -/
theorem enter_serves {advance : Reader → Reading Bool} {next : Reader → Reading (Option α)}
    {a? : Option α} {part : Part} (answerOf : Option α → Answer)
    (hnone : (answerOf none).handsOver = false)
    (hadvance : ∀ {found r'}, advance r = (.ok found, r') →
      ∃ read, Reads past r read r' ∧ (found = true → r'.part = part))
    (hnext : ∀ {past r a? r'}, r.Stands past → r.part = part → next r = (.ok a?, r') →
      Serves past r (answerOf a?) r')
    (h : enter advance next r = (.ok a?, r')) : Serves past r (answerOf a?) r' := by
  unfold enter at h
  split at h
  case h_1 r₁ hseek =>
    obtain ⟨read, hreads, hpart⟩ := hadvance hseek
    obtain ⟨read', hreads', hline⟩ := hnext hreads.stands (hpart rfl) h
    refine ⟨read ++ read', hreads.trans hreads', fun hsome => ?_⟩
    obtain ⟨line, hlast, hoff⟩ := hline hsome
    exact ⟨line, by simp [hlast], by rwa [← List.append_assoc]⟩
  case h_2 r₁ hseek =>
    cases h
    obtain ⟨read, hreads, _⟩ := hadvance hseek
    exact ⟨read, hreads, by simp [hnone]⟩
  case h_3 => simp at h

theorem fetchInstruction_serves {i? : Option Instruction} (hs : r.Stands past)
    (h : r.fetchInstruction = (.ok i?, r')) : Serves past r (.instruction i?) r' := by
  unfold fetchInstruction at h
  split at h
  case h_1 hpart => exact readInstruction_serves hs hpart h
  case h_2 =>
    exact enter_serves .instruction rfl (fun hseek => seekCode_reads hs hseek)
      readInstruction_serves h
  case h_3 =>
    cases h
    exact .stay hs rfl

theorem fetchInput_serves {w? : Option Word} (hs : r.Stands past)
    (h : r.fetchInput = (.ok w?, r')) : Serves past r (.word w?) r' := by
  unfold fetchInput at h
  split at h
  case h_1 hpart => exact readInput_serves hs hpart h
  case h_2 =>
    cases h
    exact .stay hs rfl
  case h_3 =>
    exact enter_serves .word rfl (fun hseek => seekInput_reads hs hseek)
      readInput_serves h

/-- An answer that `answerOf` has given a form was there before. -/
theorem exists_of_map_eq_ok {answerOf : α → Answer} {reading : Reading α}
    (h : (reading.1.map answerOf, reading.2) = (.ok answer, r')) :
    ∃ a, reading = (.ok a, r') ∧ answerOf a = answer := by
  obtain ⟨answer?, after⟩ := reading
  cases answer? with
  | error e => simp [Except.map] at h
  | ok a =>
    simp only [Except.map, Prod.mk.injEq, Except.ok.injEq] at h
    exact ⟨a, by rw [h.2], h.1⟩

/-- A `call` that does not fail passes some lines, possibly none, and the reader `r'` stands behind
them. -/
theorem perform_serves (hs : r.Stands past) (h : r.perform call = (.ok answer, r')) :
    Serves past r answer r' := by
  cases call with
  | seekCode =>
    obtain ⟨found, hseek, rfl⟩ := exists_of_map_eq_ok h
    obtain ⟨read, hreads, _⟩ := seekCode_reads hs hseek
    exact ⟨read, hreads, by simp [Answer.handsOver]⟩
  | seekInput =>
    obtain ⟨found, hseek, rfl⟩ := exists_of_map_eq_ok h
    obtain ⟨read, hreads, _⟩ := seekInput_reads hs hseek
    exact ⟨read, hreads, by simp [Answer.handsOver]⟩
  | fetchInstruction =>
    obtain ⟨i?, hfetch, rfl⟩ := exists_of_map_eq_ok h
    exact fetchInstruction_serves hs hfetch
  | fetchInput =>
    obtain ⟨w?, hfetch, rfl⟩ := exists_of_map_eq_ok h
    exact fetchInput_serves hs hfetch

theorem stands_ofText (origin text : String) : (ofText origin text).Stands [] :=
  ⟨rfl, by simp [ofText], by simp [ofText]⟩

end Reader

/-! ## What a walk does -/

/-- The call `v` passes the lines from its reader's position up to the position of the reader after
it. -/
theorem Visit.isSafe {v : Visit} (hrest : lines = past ++ v.before.rest)
    (h : Reader.Serves past v.before v.answer v.after) : v.IsSafe lines := by
  obtain ⟨read, hreads, hline⟩ := h
  have hafter : lines = (past ++ read) ++ v.after.rest := by
    rw [hrest, hreads.rest, List.append_assoc]
  have hposition := Reader.position_eq hafter
  have hbefore := Reader.position_eq hrest
  rw [List.length_append] at hposition
  refine ⟨by omega, fun hhands => ?_⟩
  obtain ⟨line, hlast, hoff⟩ := hline hhands
  obtain ⟨front, rfl⟩ := List.getLast?_eq_some_iff.1 hlast
  rw [List.length_append, List.length_singleton] at hposition
  refine ⟨by omega, line, ?_, by rwa [Reader.passed_eq hafter]⟩
  have hsplit : lines = (past ++ front) ++ line :: v.after.rest := by
    simp [hafter]
  have hlength : past.length + (front.length + 1) - 1 = (past ++ front).length := by
    rw [List.length_append, ← Nat.add_assoc, Nat.add_sub_cancel]
  rw [hposition, hlength, hsplit, List.getElem?_append_right (Nat.le_refl _), Nat.sub_self,
    List.getElem?_cons_zero]

/-- What a walk through `lines` with the calls `visits` has come to in `r`. -/
structure IsSafeWalk (lines : List Line) (visits : List Visit) (r : Reader) : Prop where
  /-- The lines not yet read are those behind the reader's position. -/
  rest : r.rest = lines.drop (r.position lines)
  /-- The reader has the name of the current segment. -/
  name : IsCurrentName (r.passed lines) r.name
  /-- No call has gone back or handed over what it should not. -/
  safe : ∀ v ∈ visits, v.IsSafe lines
  /-- Lines have been read off in their order, and none of them twice. -/
  order : (visits.filterMap (Visit.index? lines)).Pairwise (· > ·)

/-- What a walk has come to when `past` are the lines passed, which the lines read off are among. -/
structure Walked (lines past : List Line) (visits : List Visit) (r : Reader) : Prop where
  rest : lines = past ++ r.rest
  stands : r.Stands past
  safe : ∀ v ∈ visits, v.IsSafe lines
  order : (visits.filterMap (Visit.index? lines)).Pairwise (· > ·)
  bound : ∀ n ∈ visits.filterMap (Visit.index? lines), n < past.length

/-- One more `call` passes some more lines, and if a line is read off it is the last of them. -/
theorem Walked.call {visits : List Visit} {r r' : Reader} {call : Call} {answer : Answer}
    (h : Walked lines past visits r) (hcall : r.perform call = (.ok answer, r')) :
    ∃ past', Walked lines past' (⟨r, call, answer, r'⟩ :: visits) r' := by
  have hserves := Reader.perform_serves h.stands hcall
  have hvisit := Visit.isSafe (v := ⟨r, call, answer, r'⟩) h.rest hserves
  obtain ⟨read, hreads, _⟩ := hserves
  have hafter : lines = (past ++ read) ++ r'.rest := by
    rw [h.rest, hreads.rest, List.append_assoc]
  have hgrows : ∀ n ∈ visits.filterMap (Visit.index? lines), n < (past ++ read).length := by
    intro n hn
    have hlt := h.bound n hn
    rw [List.length_append]
    omega
  refine ⟨past ++ read, ?_⟩
  -- the line read off, if there is one, is the last that has been passed, so it comes after
  -- all the lines read off before
  cases hhands : answer.handsOver with
  | false =>
    have hindex : Visit.index? lines ⟨r, call, answer, r'⟩ = none := by
      simp [Visit.index?, hhands]
    refine ⟨hafter, hreads.stands, List.forall_mem_cons.2 ⟨hvisit, h.safe⟩, ?_, ?_⟩
    · rw [List.filterMap_cons_none hindex]
      exact h.order
    · rw [List.filterMap_cons_none hindex]
      exact hgrows
  | true =>
    have hindex : Visit.index? lines ⟨r, call, answer, r'⟩ =
        some ((past ++ read).length - 1) := by
      simp only [Visit.index?, hhands, if_true, Reader.position_eq hafter]
    obtain ⟨hforward, _⟩ := hvisit.readOff hhands
    simp only [Reader.position_eq h.rest, Reader.position_eq hafter] at hforward
    refine ⟨hafter, hreads.stands, List.forall_mem_cons.2 ⟨hvisit, h.safe⟩, ?_, ?_⟩
    · rw [List.filterMap_cons_some hindex]
      refine List.pairwise_cons.2 ⟨fun n hn => ?_, h.order⟩
      have hlt := h.bound n hn
      omega
    · rw [List.filterMap_cons_some hindex]
      exact List.forall_mem_cons.2 ⟨by omega, hgrows⟩

/-- So the whole walk to `r` has passed some lines. -/
theorem Walk.walked {origin text : String} {visits : List Visit} {r : Reader}
    (h : Walk (Reader.ofText origin text) visits r) :
    ∃ past, Walked (linesOf text) past visits r := by
  induction h with
  | start => exact ⟨[], rfl, Reader.stands_ofText origin text, by simp, by simp, by simp⟩
  | call _ hcall ih =>
    obtain ⟨past, hwalked⟩ := ih
    exact hwalked.call hcall

/-- As long as no call fails, the calls of a walk go forward through the text and each line is read
off at most once. Instructions are read off the lines between the one that started the current
segment and its first control line, and words off lines of the current segment that follow one that
starts the input, without a control line in between. The reader has the name that the current
segment was started with. -/
theorem walk_safe {origin text : String} {visits : List Visit} {r : Reader}
    (h : Walk (Reader.ofText origin text) visits r) : IsSafeWalk (linesOf text) visits r := by
  obtain ⟨past, hwalked⟩ := h.walked
  refine ⟨?_, ?_, hwalked.safe, hwalked.order⟩
  · rw [Reader.position_eq hwalked.rest, hwalked.rest, List.drop_left]
  · rw [Reader.passed_eq hwalked.rest]
    exact hwalked.stands.name

/-- The calls of a list one after the other, from `first` on, and the reader after them. The last
one comes first, and one that fails is left out. -/
def Reader.visitAll (first : Reader) : List Call → List Visit × Reader
  | [] => ([], first)
  | call :: calls =>
    match first.visitAll calls with
    | (visits, r) =>
      match r.perform call with
      | (.ok answer, r') => (⟨r, call, answer, r'⟩ :: visits, r')
      | (.error _, _) => (visits, r)

theorem walk_visitAll (first : Reader) (calls : List Call) :
    Walk first (first.visitAll calls).1 (first.visitAll calls).2 := by
  induction calls with
  | nil => exact .start
  | cons call calls ih =>
    rw [Reader.visitAll]
    generalize first.visitAll calls = before at ih
    obtain ⟨visits, r⟩ := before
    cases hcall : r.perform call with
    | mk answer? r' =>
      cases answer? with
      | ok answer =>
        simp only [hcall]
        exact .call ih hcall
      | error e =>
        simp only [hcall]
        exact ih

/-- Input before the first segment, a segment with a line of code and a word that nobody reads, and
a segment without a name. -/
def strayText : String :=
  "$RUN\n8\n$JOB a\n0\n2 1 5\n$X\n$RUN\n-1\n2\n$JOB b\n0\n$JOB\n"

/-- Calls that go back and forth between code and input of `strayText`, the last one first. -/
def strayCalls : List Call :=
  [.seekCode, .fetchInstruction, .seekInput, .fetchInstruction, .seekCode, .fetchInput, .seekInput,
    .fetchInstruction, .seekCode, .fetchInstruction, .fetchInput, .fetchInput]

/-- All of these calls but the last succeed: a word before the first segment, an instruction and a
word of the next, and an instruction of the one after it are read off. -/
theorem walk_safe_stray :
    Walk (Reader.ofText "" strayText) ((Reader.ofText "" strayText).visitAll strayCalls).1
      ((Reader.ofText "" strayText).visitAll strayCalls).2 ∧
    ((Reader.ofText "" strayText).visitAll strayCalls).1.map Visit.answer =
      [.instruction none, .section false, .instruction (some .nop), .section true,
        .word (some (-1)), .section true, .instruction (some .nop), .section true,
        .instruction none, .word none, .word (some 8)] ∧
    IsSafeWalk (linesOf strayText) ((Reader.ofText "" strayText).visitAll strayCalls).1
      ((Reader.ofText "" strayText).visitAll strayCalls).2 := by
  have hwalk := walk_visitAll (Reader.ofText "" strayText) strayCalls
  exact ⟨hwalk, by decide +kernel, walk_safe hwalk⟩

end BatchMachine.JobText
