import BatchMachine.Proofs.ObjectCode

/-!
# Where input sections are found

Assembling a text and reading it as object code cut it at the same control lines, but they look for
input in different places. Reading takes the first input section of a part, wherever it stands.
Assembling takes an input section only if it follows the code at once, and leaves out any other.
Texts without code, whose input is written in single digits, belong to both dialects and show
nothing but this difference.

* `Bare`: the lines of such a text.
* `Segment.cutFrom`: what assembling makes of a segment that reading gives.
* `assemble_eq_segments_iff`: assembling and reading give the same segments if and only if no part
  has its input section behind another control line.
* `late_input_is_left_out`: a text of which they give different segments.
-/

namespace BatchMachine

/-! ## Single digits -/

namespace Numeral

variable {base n : Nat} {c : Char} {s : String}

/-- `s` is a numeral of one digit, with a sign or without. -/
def isDigit (s : String) : Bool :=
  match s.toList with
  | [d] => d.isDigit
  | [sign, d] => (sign == '+' || sign == '-') && d.isDigit
  | _ => false

theorem digitValue?_of_isDigit (h : c.isDigit = true) :
    ∃ n < 10, digitValue? c = some n := by
  obtain ⟨hlow, hhigh⟩ : '0' ≤ c ∧ c ≤ '9' := by
    simpa [Char.isDigit, Char.le_def] using h
  refine ⟨c.toNat - '0'.toNat, ?_, by rw [digitValue?, if_pos ⟨hlow, hhigh⟩]⟩
  have hle : c.toNat ≤ '9'.toNat := hhigh
  have hnine : '9'.toNat = 57 := rfl
  have hzero : '0'.toNat = 48 := rfl
  omega

/-- The digit `c`, if it is below ten, denotes the same number in every `base` from ten on. -/
theorem magnitude?_digit (h : digitValue? c = some n) (hn : n < 10) (hbase : 10 ≤ base) :
    magnitude? base [c] = some n := by
  have hlt : n < base := Nat.lt_of_lt_of_le hn hbase
  simp [magnitude?, pushDigit?, h, hlt]

theorem exists_signed? (negative : Bool) (hn : n < 10) : ∃ w, signed? negative n = some w := by
  unfold signed? Word.ofInt?
  cases negative
  · exact ⟨_, if_pos (by simp only [Bool.false_eq_true, if_false]; omega)⟩
  · exact ⟨_, if_pos (by simp only [if_true]; omega)⟩

/-- The numeral `s` of one digit denotes the same word in base ten and in base sixteen. -/
theorem exists_parse?_of_isDigit (h : isDigit s = true) :
    ∃ w, parse? 10 s = some w ∧ parse? 16 s = some w := by
  unfold isDigit at h
  unfold parse?
  split at h
  case h_1 d hs =>
    obtain ⟨n, hn, hvalue⟩ := digitValue?_of_isDigit h
    obtain ⟨w, hw⟩ := exists_signed? false hn
    -- a digit is no sign
    have hminus : d ≠ '-' := by rintro rfl; exact absurd h (by decide)
    have hplus : d ≠ '+' := by rintro rfl; exact absurd h (by decide)
    refine ⟨w, ?_⟩
    rw [hs]
    split
    case h_1 digits heq => exact absurd (List.cons.inj heq).1 hminus
    case h_2 digits heq => exact absurd (List.cons.inj heq).1 hplus
    case h_3 =>
      simp [magnitude?_digit hvalue hn (Nat.le_refl 10),
        magnitude?_digit hvalue hn (show 10 ≤ 16 by decide), hw]
  case h_2 sign d hs =>
    simp only [Bool.and_eq_true, Bool.or_eq_true, beq_iff_eq] at h
    obtain ⟨hsign, hdigit⟩ := h
    obtain ⟨n, hn, hvalue⟩ := digitValue?_of_isDigit hdigit
    rw [hs]
    rcases hsign with rfl | rfl
    · obtain ⟨w, hw⟩ := exists_signed? false hn
      exact ⟨w, by simp [magnitude?_digit hvalue hn, hw]⟩
    · obtain ⟨w, hw⟩ := exists_signed? true hn
      exact ⟨w, by simp [magnitude?_digit hvalue hn, hw]⟩
  case h_3 => simp at h

end Numeral

namespace JobText

variable {lines : List Line} {line : Line} {part : Line × List Line} {s : Segment} {text : String}

/-! ## Lines of both dialects -/

/-- There is nothing on `line` but a numeral of one digit. -/
def Line.isDigit (line : Line) : Bool :=
  match line.tokens with
  | [token] => Numeral.isDigit token
  | _ => false

/-- `lines` are those of a text without code: after a line that starts a job comes a control line,
every line that starts a job names it, and all lines but the control lines are single digits. -/
structure Bare (lines : List Line) : Prop where
  code : ∀ part ∈ parts lines, plainLines part.2 = []
  name : ∀ line ∈ lines, line.isJob = true → line.name?.isSome = true
  input : ∀ line ∈ lines, line.isControl = false → line.isDigit = true

/-- The digit on `line` is an input word in both dialects, and the same one. -/
theorem Line.exists_word_of_isDigit (h : line.isDigit = true) :
    ∃ w, line.input = .ok w ∧ assembleInput line = .ok w := by
  unfold isDigit at h
  split at h
  case h_1 token htokens =>
    obtain ⟨w, hten, hsixteen⟩ := Numeral.exists_parse?_of_isDigit h
    refine ⟨w, ?_, ?_⟩
    · simp [input, onlyWord?, htokens, hsixteen]
    · simp [assembleInput, onlyWord?, htokens, hten]
  case h_2 => simp at h

/-- If `lines` hold digits, they are input words in both dialects, and the same ones. -/
theorem exists_words_of_isDigit (h : ∀ l ∈ lines, l.isDigit = true) :
    ∃ ws, List.Forall₂ (fun line w => line.input = .ok w) lines ws ∧
      lines.mapM assembleInput = .ok ws := by
  induction lines with
  | nil => exact ⟨[], .nil, rfl⟩
  | cons line lines ih =>
    obtain ⟨w, hread, hassembled⟩ := Line.exists_word_of_isDigit (h line List.mem_cons_self)
    obtain ⟨ws, hreads, hassembles⟩ := ih fun l hl => h l (List.mem_cons_of_mem _ hl)
    refine ⟨w :: ws, .cons hread hreads, ?_⟩
    rw [mapM_eq_ok_iff] at hassembles ⊢
    exact .cons hassembled hassembles

/-! ## What assembling leaves out -/

/-- `lines`, which come after the one that starts a job, begin with an input section. -/
def opensWithInput (lines : List Line) : Bool :=
  lines.head?.any Line.isRun

/-- What `assemble` makes of the segment `s` that reading gives for `part`, which has no code: input
that does not come at once is left out. -/
def Segment.cutFrom (part : Line × List Line) (s : Segment) : Segment :=
  if opensWithInput part.2 then s else { s with input? := none }

/-- `inputLines?` finds the input section of a part if it has one. -/
theorem inputLines?_isSome_iff (h : ∀ l ∈ lines, l.isJob = false) :
    (inputLines? lines).isSome = true ↔ lines.any Line.isRun = true := by
  induction lines with
  | nil => simp [inputLines?]
  | cons line lines ih =>
    have hjob := h line List.mem_cons_self
    have hrest := ih fun l hl => h l (List.mem_cons_of_mem _ hl)
    unfold inputLines? at hrest ⊢
    cases hrun : line.isRun with
    | true => simp [hrun]
    | false => simpa [hrun, hjob] using hrest

/-- The input section of a part holds lines of the part that are no control lines. -/
theorem of_mem_inputLines? {input : List Line} (h : inputLines? lines = some input) :
    ∀ l ∈ input, l ∈ lines ∧ l.isControl = false := by
  unfold inputLines? at h
  split at h
  case h_1 => simp at h
  case h_2 first rest hseek =>
    split at h
    case isTrue =>
      cases h
      refine fun l hl => ⟨?_, by simpa using List.mem_takeWhile_imp hl⟩
      have hmem : l ∈ first :: rest :=
        List.mem_cons_of_mem _ ((List.takeWhile_sublist _).subset hl)
      rw [← hseek] at hmem
      exact (List.dropWhile_sublist _).subset hmem
    case isFalse => simp at h

/-- `assemblePart` makes a part without code of its `name` and its input. -/
theorem assemblePart_of_no_code {job : Line} {name : String} {input? : Option (List Word)}
    (hname : job.name? = some name) (hcode : plainLines lines = [])
    (hinput : assembleInputSection lines = .ok input?) :
    assemblePart job lines = .ok ⟨name, [], input?⟩ := by
  -- without code the lines begin with the control line that ends the code
  have hcontrol : fromControl lines = lines := by
    have hsplit := List.takeWhile_append_dropWhile (p := fun l : Line => !l.isControl) (l := lines)
    rwa [show lines.takeWhile (fun l => !l.isControl) = [] from hcode, List.nil_append] at hsplit
  simp only [assemblePart, hname, hcode, hcontrol, hinput]
  rfl

/-- `assembleInputSection` gives, of the input `ws?` that reading gives, what comes at once. -/
theorem assembleInputSection_eq {ws? : Option (List Word)}
    (h : ∀ input, inputLines? lines = some input →
      ∃ ws, ws? = some ws ∧ input.mapM assembleInput = .ok ws) :
    assembleInputSection lines = .ok (if opensWithInput lines then ws? else none) := by
  cases lines with
  | nil => rfl
  | cons line rest =>
    cases hrun : line.isRun with
    | true =>
      obtain ⟨ws, rfl, hws⟩ := h (plainLines rest) (by simp [inputLines?, hrun])
      simp only [assembleInputSection, opensWithInput, hrun, hws, List.head?_cons, Option.any_some,
        if_true]
      rfl
    | false => simp [assembleInputSection, opensWithInput, hrun]

/-- Of a `part` without code reading gives a segment `s`, and `assemblePart` gives the same segment
but for input that does not come at once. -/
theorem Bare.exists_segment (h : Bare lines) (hpart : part ∈ parts lines) :
    ∃ s : Segment, s.StandsIn part ∧ assemblePart part.1 part.2 = .ok (s.cutFrom part) := by
  obtain ⟨hfirst, hjob, hothers⟩ := of_mem_parts hpart
  obtain ⟨job, body⟩ := part
  obtain ⟨name, hname⟩ := Option.isSome_iff_exists.1 (h.name job hfirst hjob)
  have hcode : plainLines body = [] := h.code _ hpart
  -- the input section, if there is one, is read alike
  obtain ⟨ws?, hreads, hassembles⟩ : ∃ ws?,
      Option.Rel (List.Forall₂ fun line w => line.input = .ok w) (inputLines? body) ws? ∧
      ∀ input, inputLines? body = some input →
        ∃ ws, ws? = some ws ∧ input.mapM assembleInput = .ok ws := by
    cases hsection : inputLines? body with
    | none => exact ⟨none, .none, by simp⟩
    | some input =>
      have hdigits : ∀ l ∈ input, l.isDigit = true := fun l hl =>
        have ⟨hmem, hplain⟩ := of_mem_inputLines? hsection l hl
        h.input l (hothers l hmem).1 hplain
      obtain ⟨ws, hread, hassembled⟩ := exists_words_of_isDigit hdigits
      exact ⟨some ws, .some hread, by rintro _ ⟨⟩; exact ⟨ws, rfl, hassembled⟩⟩
  refine ⟨⟨name, [], ws?⟩, ⟨hname, by rw [hcode]; exact .nil, hreads⟩, ?_⟩
  rw [assemblePart_of_no_code hname hcode (assembleInputSection_eq hassembles)]
  unfold Segment.cutFrom
  split <;> rfl

/-- Nothing is left out of the segment `s` if its `part` has its input section at once or not at
all. -/
theorem Segment.StandsIn.cutFrom_eq_iff (h : s.StandsIn part)
    (hothers : ∀ l ∈ part.2, l.isJob = false) :
    s.cutFrom part = s ↔ (part.2.any Line.isRun = true → opensWithInput part.2 = true) := by
  have hinput : s.input?.isSome = (inputLines? part.2).isSome := by
    have hrel := h.input
    generalize inputLines? part.2 = lines? at hrel ⊢
    generalize s.input? = input? at hrel ⊢
    cases hrel <;> rfl
  have hsome := inputLines?_isSome_iff hothers
  unfold cutFrom
  cases hopens : opensWithInput part.2 with
  | true => simp
  | false =>
    rw [← hsome, ← hinput]
    obtain ⟨name, code, input?⟩ := s
    cases input? <;> simp

/-- So it is for any parts `ps`. -/
theorem Bare.exists_segments (h : Bare lines) {ps : List (Line × List Line)}
    (hmem : ∀ part ∈ ps, part ∈ parts lines) :
    ∃ ss, List.Forall₂ Segment.StandsIn ps ss ∧
      ps.mapM (fun (job, lines) => assemblePart job lines) =
        .ok (List.zipWith Segment.cutFrom ps ss) ∧
      (List.zipWith Segment.cutFrom ps ss = ss ↔
        ∀ part ∈ ps, part.2.any Line.isRun = true → opensWithInput part.2 = true) := by
  induction ps with
  | nil => exact ⟨[], .nil, rfl, by simp⟩
  | cons part ps ih =>
    have hpart := hmem part List.mem_cons_self
    have hothers : ∀ l ∈ part.2, l.isJob = false := fun l hl => ((of_mem_parts hpart).2.2 l hl).2
    obtain ⟨s, hstands, hassembled⟩ := h.exists_segment hpart
    obtain ⟨ss, hall, hassembles, hsame⟩ := ih fun p hp => hmem p (List.mem_cons_of_mem _ hp)
    refine ⟨s :: ss, .cons hstands hall, ?_, ?_⟩
    · rw [mapM_eq_ok_iff] at hassembles ⊢
      exact .cons hassembled hassembles
    · rw [List.zipWith_cons_cons, List.cons.injEq, hsame, List.forall_mem_cons,
        hstands.cutFrom_eq_iff hothers]

/-- `assemble` of a `text` without code and `segments` of it give segments that differ at most in
input that does not come at once, and they give the same segments if and only if every part that has
an input section has it right after the line that starts the part. -/
theorem assemble_eq_segments_iff (origin : String) (h : Bare (linesOf text)) :
    ∃ ss, (Reader.ofText origin text).segments.1 = .ok ss ∧
      List.Forall₂ Segment.StandsIn (parts (linesOf text)) ss ∧
      assemble text = .ok (List.zipWith Segment.cutFrom (parts (linesOf text)) ss) ∧
      (assemble text = .ok ss ↔ ∀ part ∈ parts (linesOf text),
        part.2.any Line.isRun = true → opensWithInput part.2 = true) := by
  obtain ⟨ss, hall, hassembles, hsame⟩ := h.exists_segments fun _ hpart => hpart
  refine ⟨ss, (Reader.segments_eq_ok_iff (by simp [Reader.ofText])).2 hall, hall, hassembles, ?_⟩
  rw [assemble, hassembles, Except.ok.injEq, hsame]

/-- Stray, repeated and missing control lines: of four parts the second has its input section behind
another control line. -/
def mixedText : String :=
  "$RUN\n3\n$JOB a\n$RUN\n-7\n+9\n$RUN\n4\n$JOB b\n$X\n$RUN\n5\n$JOB c x\n$END\n$JOB d\n$RUN\n"

/-- Reading such a text gives four segments, and assembling leaves out the input of one. -/
theorem assemble_eq_segments_iff_mixed :
    Bare (linesOf mixedText) ∧
    ∃ ss, (Reader.ofText "" mixedText).segments.1 = .ok ss ∧
      List.Forall₂ Segment.StandsIn (parts (linesOf mixedText)) ss ∧
      assemble mixedText = .ok (List.zipWith Segment.cutFrom (parts (linesOf mixedText)) ss) ∧
      (assemble mixedText = .ok ss ↔ ∀ part ∈ parts (linesOf mixedText),
        part.2.any Line.isRun = true → opensWithInput part.2 = true) := by
  have hbare : Bare (linesOf mixedText) := by
    constructor <;> decide +kernel
  exact ⟨hbare, assemble_eq_segments_iff "" hbare⟩

/-- A text of one job whose input section comes behind a closing line. -/
def lateInputText : String :=
  "$JOB a\n$END\n$RUN\n7\n$END\n"

/-- Assembling does not cut every text of digits and control lines as reading does: a word of input
behind a closing line is read, and assembling leaves it out. -/
theorem late_input_is_left_out :
    Bare (linesOf lateInputText) ∧
    (Reader.ofText "" lateInputText).segments.1 = .ok [⟨"a", [], some [7]⟩] ∧
    assemble lateInputText = .ok [⟨"a", [], none⟩] := by
  refine ⟨?_, by decide +kernel, by decide +kernel⟩
  constructor <;> decide +kernel

end JobText

end BatchMachine
