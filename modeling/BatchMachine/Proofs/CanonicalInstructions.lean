import BatchMachine.Exchange
import BatchMachine.Proofs.ObjectCode
import BatchMachine.Proofs.WrittenValues

/-!
# Canonical instructions

An instruction has three slots, and its operation uses some of them. The constructors leave the
others at zero, so that an instruction is determined by its operation and its operands. Reading a
record takes all three slots as they are written and checks none of them: every instruction
whatever reads back from its own record.

* `Instruction.IsCanonical`: nothing stands in the slots that the operation does not use.
* `Instruction.isCanonical_iff_ofFields`: what the constructors make.
* `Instruction.read?_written`: an instruction reads back from its record, with all of its slots.
* `Instruction.canonical_as_listed`: which instructions are determined by their operands.
-/

namespace BatchMachine.Instruction

open Json

variable {i j : Instruction}

/-! ## Slots -/

/-- The slots of `i` that its operation does not use. -/
def unused (i : Instruction) : List Word :=
  i.slots.drop i.opcode.arity

/-- Nothing stands in the slots of `i` that its operation does not use. -/
def IsCanonical (i : Instruction) : Prop :=
  ∀ w ∈ i.unused, w = 0

instance (i : Instruction) : Decidable i.IsCanonical :=
  inferInstanceAs (Decidable (∀ w ∈ i.unused, w = 0))

theorem slots_eq (i : Instruction) : i.slots = i.operands ++ i.unused :=
  (List.take_append_drop i.opcode.arity i.slots).symm

theorem length_operands (i : Instruction) : i.operands.length = i.opcode.arity := by
  simp [operands, slots, i.opcode.arity_le]

/-- If `i` is canonical, its slots are the operands, and zeros after them. -/
theorem IsCanonical.slots_eq (h : i.IsCanonical) :
    i.slots = i.operands ++ List.replicate (3 - i.opcode.arity) 0 := by
  have hunused : i.unused = List.replicate (3 - i.opcode.arity) 0 :=
    List.eq_replicate_iff.2 ⟨by simp [unused, slots], h⟩
  rw [Instruction.slots_eq, hunused]

theorem eq_of_slots (hopcode : i.opcode = j.opcode) (hslots : i.slots = j.slots) : i = j := by
  obtain ⟨op, a, b, c⟩ := i
  obtain ⟨op', a', b', c'⟩ := j
  simp_all [slots]

/-- The operation and the operands determine a canonical instruction: `i` and `j` are the same. -/
theorem IsCanonical.eq (hi : i.IsCanonical) (hj : j.IsCanonical) (hopcode : i.opcode = j.opcode)
    (hoperands : i.operands = j.operands) : i = j := by
  apply eq_of_slots hopcode
  rw [hi.slots_eq, hj.slots_eq, hopcode, hoperands]

/-! ## Constructors -/

theorem isCanonical_of_ofOperands {opcode : Opcode} {operands : List Word}
    (h : ofOperands opcode operands = .ok i) : i.IsCanonical := by
  unfold ofOperands at h
  split at h
  case isTrue hcount =>
    cases h
    -- an operand that the list does not have is filled up with zero
    cases opcode <;> simp_all [IsCanonical, unused, slots, Opcode.arity]
  case isFalse => simp at h

theorem isBuilt_nop : nop.IsBuilt :=
  .ofOperands (show ofOperands .nop [] = .ok nop from rfl)

theorem IsBuilt.isCanonical (h : i.IsBuilt) : i.IsCanonical :=
  isCanonical_of_ofOperands h.ofOperands_operands

/-- `ofFields` makes the canonical instructions, each from its own fields. -/
theorem isCanonical_iff_ofFields : i.IsCanonical ↔ ofFields i.fields = .ok i := by
  constructor
  · intro h
    obtain ⟨i', hi'⟩ : ∃ i', ofOperands i.opcode i.operands = .ok i' := by
      simp [ofOperands, length_operands]
    obtain ⟨hopcode, hoperands⟩ := operands_of_ofOperands hi'
    obtain rfl := h.eq (isCanonical_of_ofOperands hi') hopcode.symm hoperands.symm
    rw [fields, ofFields]
    simp only [Opcode.ofCode?_code]
    exact hi'
  · intro h
    exact IsBuilt.isCanonical (.ofFields h)

/-! ## Records -/

/-- The words that `record` lists as the operands of an instruction. -/
def listed? (record : Json) : Option (List Word) := do
  match ← Shape.slots? ⟨["opcode", "operands"], false, false⟩ record with
  | [_, some operands] => operands.words? 3
  | _ => none

/-- The instruction that `text` is the record of. -/
def read? (text : String) : Option Instruction :=
  (Json.parse? text).bind decode?

/-- The slots of the instruction `i` that has been read are the words listed in its `record`. -/
theorem listed?_of_decode? {record : Json} (h : decode? record = some i) :
    listed? record = some i.slots := by
  unfold decode? at h
  unfold listed?
  obtain ⟨slots, hslots, h⟩ := Option.bind_eq_some_iff.1 h
  rw [hslots]
  split at h
  case h_1 opcode operands =>
    obtain ⟨op, -, h⟩ := Option.bind_eq_some_iff.1 h
    obtain ⟨ws, hws, h⟩ := Option.bind_eq_some_iff.1 h
    split at h
    · cases h
      exact hws
    · simp at h
  case h_2 => simp at h

theorem plain_title (op : Opcode) : ∀ c ∈ op.title.toList, IsPlain c := by
  apply isPlain_of_all
  cases op <;> decide

theorem toList_written (i : Instruction) :
    (compact i.written).toList =
      '\x7b' :: ((quote "opcode").toList ++ ':' :: ((quote i.opcode.title).toList ++
        ',' :: ((quote "operands").toList ++ ':' ::
          '[' :: (numerals (i.slots.map Int32.toInt) ++ [']', '\x7d'])))) := by
  simp [compact, Instruction.written, Written.object, Written.array, Written.int, Written.string,
    Layout.bracket, Layout.newline, Layout.colon, Layout.deeper, Opcode.written, Word.written,
    numerals, slots]

/-- The value that `i` is written as. -/
def record (i : Instruction) : Json :=
  .object [(some "opcode", .string (some i.opcode.title)),
    (some "operands", .array ((i.slots.map Int32.toInt).map fun z => .number (some z)))]

theorem parse?_written (i : Instruction) : parse? (compact i.written) = some i.record := by
  have hopcode : ∀ c ∈ "opcode".toList, IsPlain c := isPlain_of_all (by decide)
  have hoperands : ∀ c ∈ "operands".toList, IsPlain c := isPlain_of_all (by decide)
  -- the record is an object of two members, and the second one is a list of three numbers
  have hvalue : ∀ n, value? (n + 8) (compact i.written).toList = some (i.record, []) := by
    intro n
    rw [toList_written]
    apply value?_members hopcode
    apply members?_cons hopcode (value?_quote (plain_title i.opcode))
    apply members?_single hoperands
    exact value?_numerals (by simp [slots]) (by simp [slots])
  obtain ⟨n, hn⟩ : ∃ n, 2 * (compact i.written).toList.length + 2 = n + 8 := by
    have hlong : 8 ≤ 2 * (compact i.written).toList.length + 2 := by
      rw [toList_written]
      simp
      omega
    exact ⟨_, (Nat.sub_add_cancel hlong).symm⟩
  simp only [parse?, hn, hvalue]
  rfl

theorem decode?_record (i : Instruction) : decode? i.record = some i := by
  have hopcode : Opcode.decode? (.string (some i.opcode.title)) = some i.opcode := by
    cases i.opcode <;> decide
  have hwords : words? 3 (.array ((i.slots.map Int32.toInt).map fun z => .number (some z))) =
      some [i.first, i.second, i.third] := by
    simp [words?, slots, word?, int?, Word.ofInt?_toInt]
  have hslots : Shape.slots? ⟨["opcode", "operands"], false, false⟩ i.record =
      some [some (.string (some i.opcode.title)),
        some (.array ((i.slots.map Int32.toInt).map fun z => .number (some z)))] := rfl
  simp only [decode?, hslots, bind, Option.bind, hopcode, hwords]
  rfl

/-- `i` reads back from its record, with all of its slots. -/
theorem read?_written (i : Instruction) : read? (compact i.written) = some i := by
  rw [read?, parse?_written, Option.bind_some, decode?_record]

/-! ## Which instructions are canonical -/

/-- What the constructors make is canonical. What a text stands for is canonical just if its record
lists no word but zero for the slots that are not used; a text can list any words there. The
canonical instructions are those that come back from their `fields`, and they are determined by
their operation and operands. -/
theorem canonical_as_listed (i : Instruction) :
    (i.IsBuilt ∨ i = nop → i.IsCanonical) ∧
    (∀ text, read? text = some i → ∃ ws, (Json.parse? text).bind listed? = some ws ∧
      ws.length = 3 ∧ (i.IsCanonical ↔ ∀ w ∈ ws.drop i.opcode.arity, w = 0)) ∧
    read? (compact i.written) = some i ∧
    (i.IsCanonical ↔ ofFields i.fields = .ok i) ∧
    ∀ j : Instruction, i.IsCanonical → j.IsCanonical → i.opcode = j.opcode →
      i.operands = j.operands → i = j := by
  refine ⟨?built, ?read, read?_written i, isCanonical_iff_ofFields,
    fun j hi hj hopcode hoperands => hi.eq hj hopcode hoperands⟩
  case built =>
    rintro (hbuilt | rfl)
    · exact hbuilt.isCanonical
    · exact isBuilt_nop.isCanonical
  case read =>
    intro text hread
    obtain ⟨record, hparse, hdecode⟩ := Option.bind_eq_some_iff.1 hread
    refine ⟨i.slots, ?_, by simp [slots], Iff.rfl⟩
    rw [hparse, Option.bind_some, listed?_of_decode? hdecode]

/-- A record that lists other words than zero for an operation without operands is read as it
stands. The instruction has the operation and the operands of the one that does nothing, and is
another one. -/
theorem reading_keeps_unused_slots :
    ∃ i, read? "\x7b\"opcode\":\"Nop\",\"operands\":[1,2,3]\x7d" = some i ∧
      i.unused = [1, 2, 3] ∧ ofFields i.fields ≠ .ok i ∧
      i.opcode = nop.opcode ∧ i.operands = nop.operands ∧ i ≠ nop := by
  refine ⟨⟨.nop, 1, 2, 3⟩, ?_, ?_, ?_, ?_, ?_, ?_⟩ <;> decide +kernel

end BatchMachine.Instruction
