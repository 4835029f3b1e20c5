import BatchMachine.JobText.Assembly
import BatchMachine.Proofs.ObjectGrammar

/-!
# Lines under other numbers

Of a line, assembling and reading use the words, and whether it is a control line. The number of a
line shows in errors and nowhere else. So lines with the same words under other numbers assemble
and read to the same segments, and the errors differ in the numbers of their lines.

* `Line.Renumbered`: a line with the same words under another number.
* `AssemblyError.renumber`, `ReadError.renumber`: an error about such a line.
* `parts_renumbered`: renumbered lines have renumbered parts.
* `assembleParts_renumbered`, `segmentsOf_renumbered`: they assemble and read alike.
-/

namespace BatchMachine.JobText

/-- `line'` has the same words as `line`, whose number has been changed by `f`. -/
structure Line.Renumbered (f : Nat → Nat) (line line' : Line) : Prop where
  number : line'.number = f line.number
  tokens : line'.tokens = line.tokens
  isControl : line'.isControl = line.isControl

/-- `s` when the number of its line has been changed by `f`. -/
def Statement.renumber (f : Nat → Nat) (s : Statement) : Statement :=
  { s with line := f s.line }

/-- An error on a line whose number has been changed by `f`. A label is blamed for two instructions,
and these are counted from the start of their part. -/
def AssemblyError.renumber (f : Nat → Nat) : AssemblyError → AssemblyError
  | unknownMnemonic line word => unknownMnemonic (f line) word
  | operands line cause => operands (f line) cause
  | ambiguousLabel label first second => ambiguousLabel label first second
  | undefinedLabel line label => undefinedLabel (f line) label
  | missingJobName line => missingJobName (f line)
  | badInput line => badInput (f line)

/-- A reading error on a line whose number has been changed by `f`. -/
def ReadError.renumber (f : Nat → Nat) : ReadError → ReadError
  | badNumber line token => badNumber (f line) token
  | badInstruction line cause => badInstruction (f line) cause
  | badInput line => badInput (f line)
  | missingJobName line => missingJobName (f line)

variable {f : Nat → Nat} {line line' job job' : Line} {lines lines' : List Line}

namespace Line.Renumbered

theorem hasKeyword (h : Renumbered f line line') (keyword : String) :
    line'.hasKeyword keyword = line.hasKeyword keyword := by
  rw [Line.hasKeyword, Line.hasKeyword, h.isControl, h.tokens]

theorem isJob (h : Renumbered f line line') : line'.isJob = line.isJob := h.hasKeyword _

theorem isRun (h : Renumbered f line line') : line'.isRun = line.isRun := h.hasKeyword _

theorem name? (h : Renumbered f line line') : line'.name? = line.name? := by
  rw [Line.name?, Line.name?, h.tokens]

theorem onlyWord? (h : Renumbered f line line') (base : Nat) :
    line'.onlyWord? base = line.onlyWord? base := by
  rw [Line.onlyWord?, Line.onlyWord?, h.tokens]

theorem opener? (h : Renumbered f line line') : line'.opener? = line.opener? := by
  rw [Line.opener?, Line.opener?, h.tokens]

end Line.Renumbered

/-- `lines` and `lines'` have the same words line by line, under other numbers. -/
theorem renumbered_of_map (hnumbers : lines'.map Line.number = lines.map fun l => f l.number)
    (htokens : lines'.map Line.tokens = lines.map Line.tokens)
    (hcontrol : lines'.map Line.isControl = lines.map Line.isControl) :
    List.Forall₂ (Line.Renumbered f) lines lines' := by
  induction lines generalizing lines' with
  | nil =>
    obtain rfl := List.map_eq_nil_iff.1 htokens
    exact .nil
  | cons line lines ih =>
    cases lines' with
    | nil => simp at htokens
    | cons line' lines' =>
      simp only [List.map_cons, List.cons.injEq] at hnumbers htokens hcontrol
      exact .cons ⟨hnumbers.1, htokens.1, hcontrol.1⟩ (ih hnumbers.2 htokens.2 hcontrol.2)

/-! ## Errors of composed computations -/

section MapError

variable {α β γ ε : Type} {g : ε → ε}

theorem mapError_bind (x : Except ε α) (f : α → Except ε β) :
    (x >>= f).mapError g = x.mapError g >>= fun a => (f a).mapError g := by
  cases x <;> rfl

theorem mapError_map (f : α → β) (x : Except ε α) :
    (f <$> x).mapError g = f <$> x.mapError g := by
  cases x <;> rfl

/-- Changing the errors of `x` does not change its result. -/
theorem mapError_eq_ok_iff {x : Except ε α} {a : α} : x.mapError g = .ok a ↔ x = .ok a := by
  cases x <;> simp [Except.mapError]

/-- `f` and `f'` agree item by item, their errors apart. -/
theorem mapM_mapError {f : α → Except ε γ} {f' : β → Except ε γ} {as : List α} {bs : List β}
    (h : List.Forall₂ (fun a b => f' b = (f a).mapError g) as bs) :
    bs.mapM f' = (as.mapM f).mapError g := by
  induction h with
  | nil => rfl
  | cons hfirst _ ih =>
    rw [List.mapM_cons, List.mapM_cons, mapError_bind, hfirst, ih]
    congr 1
    funext c
    rw [mapError_bind]
    rfl

end MapError

/-! ## Related lists -/

section Related

variable {α β : Type} {R : α → β → Prop} {p : α → Bool} {q : β → Bool} {as : List α} {bs : List β}

theorem forall₂_takeWhile (h : List.Forall₂ R as bs) (hpq : ∀ a b, R a b → q b = p a) :
    List.Forall₂ R (as.takeWhile p) (bs.takeWhile q) := by
  induction h with
  | nil => exact .nil
  | @cons a b as bs hfirst _ ih =>
    rw [List.takeWhile_cons, List.takeWhile_cons, hpq a b hfirst]
    cases p a with
    | true => exact .cons hfirst ih
    | false => exact .nil

theorem forall₂_dropWhile (h : List.Forall₂ R as bs) (hpq : ∀ a b, R a b → q b = p a) :
    List.Forall₂ R (as.dropWhile p) (bs.dropWhile q) := by
  induction h with
  | nil => exact .nil
  | @cons a b as bs hfirst hrest ih =>
    rw [List.dropWhile_cons, List.dropWhile_cons, hpq a b hfirst]
    cases p a with
    | true => exact ih
    | false => exact .cons hfirst hrest

end Related

/-! ## Parts -/

/-- `part'` is `part` with its lines renumbered by `f`. -/
def PartRenumbered (f : Nat → Nat) (part part' : Line × List Line) : Prop :=
  part.1.Renumbered f part'.1 ∧ List.Forall₂ (Line.Renumbered f) part.2 part'.2

theorem parts_renumbered (h : List.Forall₂ (Line.Renumbered f) lines lines') :
    List.Forall₂ (PartRenumbered f) (parts lines) (parts lines') := by
  induction h with
  | nil => exact .nil
  | @cons line line' lines lines' hfirst hrest ih =>
    rw [parts, parts, hfirst.isJob]
    cases line.isJob with
    | true =>
      exact .cons ⟨hfirst, forall₂_takeWhile hrest fun _ _ hline => by rw [hline.isJob]⟩ ih
    | false => exact ih

theorem plainLines_renumbered (h : List.Forall₂ (Line.Renumbered f) lines lines') :
    List.Forall₂ (Line.Renumbered f) (plainLines lines) (plainLines lines') :=
  forall₂_takeWhile h fun _ _ hline => by rw [hline.isControl]

theorem fromControl_renumbered (h : List.Forall₂ (Line.Renumbered f) lines lines') :
    List.Forall₂ (Line.Renumbered f) (fromControl lines) (fromControl lines') :=
  forall₂_dropWhile h fun _ _ hline => by rw [hline.isControl]

/-! ## Assembling -/

/-- Labels stand for instructions, which are not counted by lines, so that `f` does not change their
errors. -/
theorem defineFor_renumber (labels : Labels) (s : Shape) (index : Nat) :
    (labels.defineFor s index).mapError (AssemblyError.renumber f) = labels.defineFor s index := by
  unfold Labels.defineFor
  cases s.label? with
  | none => rfl
  | some label =>
    simp only [Labels.define]
    cases labels.lookup label with
    | none => rfl
    | some first =>
      simp only
      split <;> rfl

/-- The numbers of the lines of a code section show in what `collect` makes of them: in its
statements and in an error. -/
theorem collect_renumbered (h : List.Forall₂ (Line.Renumbered f) lines lines') (labels : Labels)
    (index : Nat) :
    collect labels index lines' =
      ((collect labels index lines).mapError (AssemblyError.renumber f)).map
        fun code => (code.1, code.2.map (Statement.renumber f)) := by
  induction h generalizing labels index with
  | nil => rfl
  | @cons line line' lines lines' hfirst _ ih =>
    rw [collect, collect, hfirst.tokens]
    cases line.tokens with
    | nil => exact ih labels index
    | cons first others =>
      simp only
      -- that a label stands for two instructions is said without a line number
      rw [mapError_bind, defineFor_renumber]
      cases labels.defineFor (shape first others) index with
      | error e => rfl
      | ok labels =>
        simp only [bind, Except.bind, ih, hfirst.number]
        cases shape first others with
        | lone label => rfl
        | unknown label => rfl
        | plain opcode operands =>
          cases collect labels (index + 1) lines <;> rfl
        | labelled label opcode operands =>
          cases collect labels (index + 1) lines <;> rfl

theorem operand_renumber (labels : Labels) (line index : Nat) (token : String) :
    operand labels (f line) index token =
      (operand labels line index token).mapError (AssemblyError.renumber f) := by
  unfold operand
  cases Trap.ofName? token with
  | some trap => rfl
  | none =>
    cases Numeral.parse? 10 token with
    | some w => rfl
    | none =>
      simp only
      cases labels.lookup token <;> rfl

theorem encode_renumber (labels : Labels) (index : Nat) (s : Statement) :
    encode labels index (s.renumber f) =
      (encode labels index s).mapError (AssemblyError.renumber f) := by
  have hoperands : s.operands.mapM (operand labels (f s.line) index) =
      (s.operands.mapM (operand labels s.line index)).mapError (AssemblyError.renumber f) :=
    mapM_mapError (List.forall₂_same.2 fun token _ => operand_renumber labels s.line index token)
  unfold encode
  rw [mapError_bind, ← hoperands]
  simp only [Statement.renumber]
  congr 1
  funext operands
  cases Instruction.ofOperands s.opcode operands <;> rfl

theorem assembleCode_renumbered (h : List.Forall₂ (Line.Renumbered f) lines lines') :
    assembleCode lines' = (assembleCode lines).mapError (AssemblyError.renumber f) := by
  unfold assembleCode
  rw [collect_renumbered h, mapError_bind]
  cases collect [] 0 lines with
  | error e => rfl
  | ok code =>
    -- the statements keep their places, and a label is the offset between two of them
    change (code.2.map (Statement.renumber f)).zipIdx.mapM (fun s => encode code.1 s.2 s.1) =
      (code.2.zipIdx.mapM fun s => encode code.1 s.2 s.1).mapError (AssemblyError.renumber f)
    rw [List.zipIdx_map]
    refine mapM_mapError (List.forall₂_map_right_iff.2 (List.forall₂_same.2 fun s _ => ?_))
    exact encode_renumber code.1 s.2 s.1

theorem assembleInput_renumbered (h : line.Renumbered f line') :
    assembleInput line' = (assembleInput line).mapError (AssemblyError.renumber f) := by
  unfold assembleInput
  rw [h.onlyWord?, h.number]
  cases line.onlyWord? 10 <;> rfl

theorem assembleInputSection_renumbered (h : List.Forall₂ (Line.Renumbered f) lines lines') :
    assembleInputSection lines' =
      (assembleInputSection lines).mapError (AssemblyError.renumber f) := by
  cases h with
  | nil => rfl
  | @cons line line' lines lines' hfirst hrest =>
    rw [assembleInputSection, assembleInputSection, hfirst.isRun]
    split
    case isTrue =>
      rw [mapM_mapError ((plainLines_renumbered hrest).imp fun _ _ => assembleInput_renumbered),
        mapError_bind]
      rfl
    case isFalse => rfl

/-- `assemblePart` does the same under other numbers, except for those in an error. -/
theorem assemblePart_renumbered (hjob : job.Renumbered f job')
    (h : List.Forall₂ (Line.Renumbered f) lines lines') :
    assemblePart job' lines' = (assemblePart job lines).mapError (AssemblyError.renumber f) := by
  unfold assemblePart
  rw [hjob.name?, hjob.number]
  cases job.name? with
  | none => rfl
  | some name =>
    simp only [assembleCode_renumbered (plainLines_renumbered h),
      assembleInputSection_renumbered (fromControl_renumbered h), mapError_bind]
    rfl

/-- `lines'`, which are `lines` renumbered, assemble to the same segments. -/
theorem assembleParts_renumbered (h : List.Forall₂ (Line.Renumbered f) lines lines') :
    (parts lines').mapM (fun part => assemblePart part.1 part.2) =
      ((parts lines).mapM fun part => assemblePart part.1 part.2).mapError
        (AssemblyError.renumber f) :=
  mapM_mapError ((parts_renumbered h).imp fun _ _ hpart =>
    assemblePart_renumbered hpart.1 hpart.2)

/-! ## Reading -/

theorem nameOf_renumbered (h : line.Renumbered f line') :
    line'.nameOf = line.nameOf.mapError (ReadError.renumber f) := by
  unfold Line.nameOf
  rw [h.tokens, h.number]
  rcases line.tokens with _ | ⟨first, _ | ⟨second, rest⟩⟩ <;> rfl

theorem wordOf_renumbered (h : line.Renumbered f line') :
    line'.wordOf = line.wordOf.mapError (ReadError.renumber f) := by
  unfold Line.wordOf
  rw [h.tokens, h.number]
  split <;> rfl

theorem codeOf_renumbered (h : line.Renumbered f line') :
    line'.codeOf = line.codeOf.mapError (ReadError.renumber f) := by
  unfold Line.codeOf
  rw [h.tokens, h.number]
  cases line.tokens.find? fun token => (Numeral.parse? 16 token).isNone with
  | some token => rfl
  | none =>
    simp only
    cases Instruction.ofFields (line.tokens.filterMap (Numeral.parse? 16)) <;> rfl

theorem inputOf_renumbered (h : List.Forall₂ (Line.Renumbered f) lines lines') :
    inputOf lines' = (inputOf lines).mapError (ReadError.renumber f) := by
  have hlater : List.Forall₂ (Line.Renumbered f)
      (lines.dropWhile fun l => l.opener? != some "$RUN")
      (lines'.dropWhile fun l => l.opener? != some "$RUN") :=
    forall₂_dropWhile h fun _ _ hline => by rw [hline.opener?]
  unfold inputOf
  generalize lines.dropWhile (fun l => l.opener? != some "$RUN") = later at hlater
  generalize lines'.dropWhile (fun l => l.opener? != some "$RUN") = later' at hlater
  cases hlater with
  | nil => rfl
  | cons _ hlater =>
    simp only
    rw [mapM_mapError ((plainLines_renumbered hlater).imp fun _ _ => wordOf_renumbered),
      mapError_map]

theorem segmentOf_renumbered {part part' : Line × List Line} (h : PartRenumbered f part part') :
    segmentOf part' = (segmentOf part).mapError (ReadError.renumber f) := by
  unfold segmentOf
  simp only [nameOf_renumbered h.1, inputOf_renumbered (fromControl_renumbered h.2),
    mapM_mapError ((plainLines_renumbered h.2).imp fun _ _ => codeOf_renumbered), mapError_bind]
  rfl

/-- `lines'`, which are `lines` renumbered, stand for the same segments. -/
theorem segmentsOf_renumbered (h : List.Forall₂ (Line.Renumbered f) lines lines') :
    (parts lines').mapM segmentOf =
      ((parts lines).mapM segmentOf).mapError (ReadError.renumber f) :=
  mapM_mapError ((parts_renumbered h).imp fun _ _ => segmentOf_renumbered)

/-- Reading `text` gives what its parts stand for. -/
theorem segments_eq_mapM (origin text : String) :
    (Reader.ofText origin text).segments.1 = (parts (linesOf text)).mapM segmentOf :=
  (Reader.segmentsUpTo_readsAll (by simp [Reader.ofText])
    (Nat.lt_succ_of_le (Nat.le_succ_of_le List.countP_le_length))
    fun _ hp l hl => isOpened_of_mem ((of_mem_parts hp).2.2 l hl).1).2

/-! ## Texts with the same words -/

/-- What is numbered by `xs` without repetition can be numbered anew in any way. -/
theorem exists_map_eq {xs ys : List Nat} (h : xs.Nodup) (hlength : ys.length = xs.length) :
    ∃ f : Nat → Nat, ys = xs.map f := by
  refine ⟨fun x => ys.getD (xs.idxOf x) 0, List.ext_getElem (by simpa using hlength) ?_⟩
  intro i hi hi'
  rw [List.length_map] at hi'
  rw [List.getElem_map, h.idxOf_getElem i hi', List.getD_eq_getElem?_getD,
    List.getElem?_eq_getElem hi, Option.getD_some]

/-- The first word of a `line` of `text` tells whether it is a control line. -/
theorem isControl_of_mem {text : String} (h : line ∈ linesOf text) (hwords : line.tokens ≠ []) :
    line.isControl = ((line.tokens.head?.bind fun word => word.toList.head?) == some '$') := by
  obtain ⟨first, others, htokens⟩ := List.exists_cons_of_ne_nil hwords
  have hopened := isOpened_of_mem h first (by simp [Line.opener?, htokens])
  rw [Line.isControl, ← hopened, htokens]
  rfl

end BatchMachine.JobText
