import BatchMachine.JobText.Listing
import BatchMachine.Proofs.ObjectCode

/-!
# Listings assemble

The listing of an object text is an assembly text for the same segments. Every line of code starts
with the name of an operation, so that no line of it is taken for a label, and the operands are
read back as the words they show: trap names as the numbers of traps, and everything else as
decimal numerals.

* `assemblyDialect`: how a listing spells a segment.
* `says_listingLine`: what a line of a listing says besides its comment.
* `assemblePart_of_setsOut`: assembling what has been set out.
* `listing_assembles`: a listing assembles to the object code it was made for.
-/

namespace BatchMachine.JobText

variable {s : Segment} {ss : List Segment} {line : Line} {i : Instruction} {w : Word}

/-! ## Operands -/

theorem isWord_mnemonic (op : Opcode) :
    IsWord op.mnemonic ∧ op.mnemonic.toList.head? ≠ some '$' := by
  cases op <;> decide

theorem isWord_trapName (t : Trap) : IsWord t.name := by
  cases t <;> decide

theorem isWord_decimal (w : Word) : IsWord (Numeral.decimal w) :=
  (isWord_format (show 1 < 10 by decide) (by decide) w).1

/-- The number of the trap `t` is the one it is known by. -/
theorem code_of_ofCode? {t : Trap} (h : Trap.ofCode? w = some t) : t.code = w := by
  simpa using List.find?_some h

/-- The first operand `w` is shown by the name of a trap, or in decimal. -/
theorem firstText_cases (op : Opcode) (w : Word) :
    (∃ t : Trap, t.code = w ∧ Instruction.firstText op w = t.name) ∨
      Instruction.firstText op w = Numeral.decimal w := by
  unfold Instruction.firstText
  split
  case h_1 t ht => exact .inl ⟨t, code_of_ofCode? ht, rfl⟩
  case h_2 => exact .inr rfl

/-- Each `text` of an operand is a word. -/
theorem isWord_of_mem_operandTexts {text : String} (h : text ∈ i.operandTexts) : IsWord text := by
  unfold Instruction.operandTexts at h
  split at h
  case h_1 => simp at h
  case h_2 operand rest _ =>
    rcases List.mem_cons.1 h with rfl | hmem
    · rcases firstText_cases i.opcode operand with ⟨t, _, htext⟩ | htext
      · exact htext ▸ isWord_trapName t
      · exact htext ▸ isWord_decimal operand
    · obtain ⟨w, _, rfl⟩ := List.mem_map.1 hmem
      exact isWord_decimal w

/-- The numeral of `w` is not the name of a trap. -/
theorem ofName?_decimal (w : Word) : Trap.ofName? (Numeral.decimal w) = none := by
  -- a name holds a letter, and a numeral holds none
  have hletter : ∀ t : Trap, t.name.toList.any Char.isAlpha = true := by
    rintro (_ | _ | _ | _ | _ | _) <;> decide
  have hnumeral : ∀ c ∈ (Numeral.decimal w).toList, c.isAlpha = false := by
    intro c hc
    rcases Numeral.mem_format (show 1 < 10 by decide) hc with rfl | ⟨d, hd, rfl⟩
    · decide
    · interval_cases d <;> decide
  rw [Trap.ofName?, List.find?_eq_none]
  intro t _ hname
  obtain ⟨c, hc, halpha⟩ := List.any_eq_true.1 (hletter t)
  rw [of_decide_eq_true hname] at hc
  rw [hnumeral c hc] at halpha
  exact absurd halpha (by decide)

/-- `operand` reads the numeral of `w` back. -/
theorem operand_decimal (labels : Labels) (number index : Nat) (w : Word) :
    operand labels number index (Numeral.decimal w) = .ok w := by
  rw [operand, ofName?_decimal]
  simp only [Numeral.decimal, Numeral.parse?_format (show 1 < 10 by decide) (by decide)]

/-- `operand` reads the operands of `i` back from their texts. -/
theorem operand_operandTexts (labels : Labels) (number index : Nat) (i : Instruction) :
    i.operandTexts.mapM (operand labels number index) = .ok i.operands := by
  rw [mapM_eq_ok_iff, Instruction.operandTexts]
  have hrest : ∀ ws : List Word, List.Forall₂
      (fun text w => operand labels number index text = .ok w) (ws.map Numeral.decimal) ws :=
    fun ws => List.forall₂_map_left_iff.2 (List.forall₂_same.2 fun w _ => operand_decimal _ _ _ w)
  split
  case h_1 hnone =>
    rw [hnone]
    exact .nil
  case h_2 first rest hoperands =>
    rw [hoperands]
    refine .cons ?_ (hrest rest)
    rcases firstText_cases i.opcode first with ⟨t, hcode, htext⟩ | htext
    · rw [htext, operand, Trap.ofName?_name, ← hcode]
    · rw [htext]
      exact operand_decimal _ _ _ first

/-! ## Lines of a listing -/

/-- How assembly spells segments: by the names of operations and in decimal. -/
def assemblyDialect : Dialect where
  code i := i.opcode.mnemonic :: i.operandTexts
  numeral := Numeral.decimal
  code_plain i := by
    refine ⟨fun w hw => ?_, _, _, rfl, (isWord_mnemonic i.opcode).2⟩
    rcases List.mem_cons.1 hw with rfl | hmem
    · exact (isWord_mnemonic i.opcode).1
    · exact isWord_of_mem_operandTexts hmem
  numeral_plain w :=
    ⟨fun s hs => List.mem_singleton.1 hs ▸ isWord_decimal w, _, _, rfl,
      (isWord_format (show 1 < 10 by decide) (by decide) w).2⟩

/-- A line of a listing says the instruction `i`. Its `address` and object code are in a comment. -/
theorem says_listingLine (address : Nat) (i : Instruction) :
    Says (listingLine address i) (assemblyDialect.code i) := by
  -- the comment may hold anything but the end of the line
  have hnumber : '\n' ∉ (Text.padNumber 3 address).toList := by
    rw [Text.padNumber, String.toList_append, String.toList_ofList,
      Nat.toString_eq_ofList_toDigits, String.toList_ofList, List.mem_append]
    rintro (hmem | hmem)
    · exact absurd (List.eq_of_mem_replicate hmem) (by decide)
    · exact absurd (Nat.isDigit_of_mem_toDigits (by decide) (by decide) hmem) (by decide)
  have hobject : '\n' ∉ i.objectText.toList :=
    (says_intercalate (objectDialect.code_plain i).words).single
  refine says_of_toList (List.replicate 4 ' ') (List.replicate (20 - i.text.length) ' ' ++ [' '])
    ('%' :: ' ' :: ((Text.padNumber 3 address).toList ++ (':' :: ' ' :: i.objectText.toList)))
    (assemblyDialect.code_plain i).words ?_ ?_ ?_ ?_ ?_
  · exact fun c hc => List.eq_of_mem_replicate hc
  · intro c hc
    rcases List.mem_append.1 hc with hc | hc
    · exact List.eq_of_mem_replicate hc
    · exact List.mem_singleton.1 hc
  · simp
  · simp [hnumber, hobject]
  · have htext : i.text.toList = spaced (assemblyDialect.code i) := by
      rw [Instruction.text, String.toList_intercalate]
      rfl
    simp only [listingLine, Text.padRight, String.toList_append, String.toList_ofList, htext]
    simp

/-- The lines of a listing say the words of the segment `s`. -/
theorem says_listingLines (hname : IsWord s.name) :
    List.Forall₂ Says s.listingLines (assemblyDialect.spelling s) := by
  refine assemblyDialect.says_spelling hname ?_
  rw [List.forall₂_map_left_iff, List.forall₂_map_right_iff]
  suffices hfrom : ∀ start, List.Forall₂ (fun entry i =>
      Says (listingLine entry.2 entry.1) (assemblyDialect.code i)) (s.code.zipIdx start) s.code from
    hfrom 0
  induction s.code with
  | nil => exact fun _ => .nil
  | cons i is ih => exact fun start => .cons (says_listingLine start i) (ih (start + 1))

/-! ## Assembling a listing -/

/-- Lines that spell the instructions `is` are the statements of them, and define no label. -/
theorem collect_of_tokens {lines : List Line} {is : List Instruction} (labels : Labels)
    (index : Nat)
    (h : List.Forall₂ (fun line i => line.tokens = assemblyDialect.code i) lines is) :
    ∃ statements, collect labels index lines = .ok (labels, statements) ∧
      List.Forall₂ (fun (s : Statement) i => s.opcode = i.opcode ∧ s.operands = i.operandTexts)
        statements is := by
  induction h generalizing index with
  | nil => exact ⟨[], rfl, .nil⟩
  | @cons line i lines is hline _ ih =>
    obtain ⟨statements, hcollect, hall⟩ := ih (index + 1)
    refine ⟨⟨line.number, i.opcode, i.operandTexts⟩ :: statements, ?_, .cons ⟨rfl, rfl⟩ hall⟩
    have hshape : shape i.opcode.mnemonic i.operandTexts = .plain i.opcode i.operandTexts := by
      unfold shape
      rw [Opcode.ofMnemonic?_mnemonic]
    rw [collect, hline]
    simp only [assemblyDialect, hshape, Labels.defineFor, Shape.label?, bind, Except.bind, hcollect]
    rfl

/-- A `statement` that shows the instruction `i` encodes as `i`. -/
theorem encode_of_texts {labels : Labels} {index : Nat} {statement : Statement}
    (hbuilt : i.IsBuilt) (hopcode : statement.opcode = i.opcode)
    (hoperands : statement.operands = i.operandTexts) : encode labels index statement = .ok i := by
  rw [encode, hoperands, operand_operandTexts, hopcode]
  simp only [bind, Except.bind, hbuilt.ofOperands_operands]

/-- `lines` that spell the instructions `is` assemble to them. -/
theorem assembleCode_of_tokens {lines : List Line} {is : List Instruction}
    (hbuilt : ∀ i ∈ is, i.IsBuilt)
    (h : List.Forall₂ (fun line i => line.tokens = assemblyDialect.code i) lines is) :
    assembleCode lines = .ok is := by
  obtain ⟨statements, hcollect, hall⟩ := collect_of_tokens [] 0 h
  have hencode : (statements.zipIdx.mapM fun entry => encode [] entry.2 entry.1) = .ok is := by
    rw [mapM_eq_ok_iff]
    -- the number of a statement does not matter, as no operand is a label
    suffices hfrom : ∀ start, List.Forall₂ (fun entry i => encode [] entry.2 entry.1 = .ok i)
        (statements.zipIdx start) is from hfrom 0
    clear hcollect h
    induction hall with
    | nil => exact fun _ => .nil
    | @cons statement i statements is hshows _ ih =>
      have hrest := ih fun i hi => hbuilt i (List.mem_cons_of_mem _ hi)
      exact fun start => .cons (encode_of_texts (hbuilt i (by simp)) hshows.1 hshows.2)
        (hrest (start + 1))
  simp only [assembleCode, hcollect, bind, Except.bind]
  exact hencode

/-- The input section `input?` that `lines` set out is assembled. -/
theorem assembleInputSection_of_setsInput {lines : List Line} {input? : Option (List Word)}
    (h : assemblyDialect.SetsInput lines input?) : assembleInputSection lines = .ok input? := by
  cases h with
  | none => rfl
  | @some run lines input hrun hinput =>
    have hwords : (plainLines lines).mapM assembleInput = .ok input := by
      rw [mapM_eq_ok_iff]
      refine hinput.imp fun line w htokens => ?_
      rw [assembleInput, Line.onlyWord?, htokens]
      simp only [assemblyDialect, Numeral.decimal,
        Numeral.parse?_format (show 1 < 10 by decide) (by decide)]
    rw [assembleInputSection, if_pos hrun, hwords]
    rfl

/-- A `part` that sets out the segment `s` assembles to it. -/
theorem assemblePart_of_setsOut {part : Line × List Line} (hs : s.IsWellFormed)
    (h : assemblyDialect.SetsOut part s) : assemblePart part.1 part.2 = .ok s := by
  unfold assemblePart
  rw [h.name]
  simp only [assembleCode_of_tokens hs.code h.code, assembleInputSection_of_setsInput h.input, bind,
    Except.bind, pure, Except.pure]

/-- The listing of the segments `ss` assembles to them. -/
theorem assemble_listing (h : ∀ s ∈ ss, s.IsWellFormed) : assemble (listing ss) = .ok ss := by
  have hcomment : ∀ raw ∈ ["% RMMIX Disassembly", "% -----------------"], Says raw [] := by
    intro raw hraw
    obtain ⟨hfirst, hsingle⟩ : raw.toList.head? = some '%' ∧ '\n' ∉ raw.toList := by
      revert raw
      decide
    exact says_of_toList [] [] raw.toList (by simp) (by simp) (by simp) (by simp [hfirst]) hsingle
      (by simp [spaced])
  have hsets := assemblyDialect.setsOut_unlines _ hcomment
    fun s hs => says_listingLines (h s hs).name
  rw [assemble, mapM_eq_ok_iff]
  exact forall₂_imp_of_mem hsets fun part s hs hset => assemblePart_of_setsOut (h s hs) hset

/-- Every object `text` that reads as the segments `ss` has a listing, and the listing assembles to
`ss` and to their object code. -/
theorem listing_assembles {origin text : String}
    (h : (Reader.ofText origin text).segments.1 = .ok ss) :
    disassemble text = .ok (listing ss) ∧ assemble (listing ss) = .ok ss ∧
      assembleText (listing ss) = .ok (objectText ss) := by
  -- where the text came from does not matter
  have hparts := (Reader.segments_eq_ok_iff (by simp [Reader.ofText])).1 h
  have hread : (Reader.ofText "" text).segments.1 = .ok ss :=
    (Reader.segments_eq_ok_iff (by simp [Reader.ofText])).2 hparts
  have hassembles := assemble_listing fun s hs => isWellFormed_of_segments h hs
  refine ⟨?_, hassembles, ?_⟩
  · rw [disassemble, hread]
    rfl
  · rw [assembleText, hassembles]
    rfl

/-- An object text with a numbered and a named trap, the least word, and a job that is called like
an operation. -/
def trapsText : String :=
  "$JOB a$b\nf 43 -1\nf 63 2\n2 1 -80000000\n$RUN\n-2a\n$JOB NOP\n"

/-- The segments of `trapsText`. -/
def trapsSegments : List Segment :=
  [⟨"a$b", [⟨.trap, 67, -1, 0⟩, ⟨.trap, 99, 2, 0⟩, ⟨.movi, 1, -2147483648, 0⟩], some [-42]⟩,
    ⟨"NOP", [], none⟩]

/-- That text is listed and assembled. -/
theorem listing_assembles_traps :
    (Reader.ofText "" trapsText).segments.1 = .ok trapsSegments ∧
      disassemble trapsText = .ok (listing trapsSegments) ∧
      assemble (listing trapsSegments) = .ok trapsSegments ∧
      assembleText (listing trapsSegments) = .ok (objectText trapsSegments) := by
  have hread : (Reader.ofText "" trapsText).segments.1 = .ok trapsSegments := by
    decide +kernel
  exact ⟨hread, listing_assembles hread⟩

end BatchMachine.JobText
