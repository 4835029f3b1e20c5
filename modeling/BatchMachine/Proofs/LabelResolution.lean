import BatchMachine.Hardware
import BatchMachine.Proofs.InstructionSet
import BatchMachine.Proofs.ObjectCode

/-!
# Labels lead to their instructions

The lines of a code section are read twice. First labels and operations are collected, and a label
gets the number of operations before it; then the operands are put in place, a label as the offset
from the next instruction. A branch adds the offset before the program counter is incremented, so
it leads to the labelled instruction, or to the end of the image if none follows the label.

* `Line.HasShape`: the lines that can be assembled.
* `operations`, `Defines`: the operations on lines, and the numbers that labels stand for.
* `Resolves`, `Translates`: what operands and operations are assembled to.
* `collect_spec`: what the labels and statements are that are collected.
* `assembleCode_resolves`: what assembles, to what, and where its branches lead.
-/

namespace BatchMachine

open JobText

namespace JobText

/-- `line` can be assembled, and this is what it holds. -/
inductive Line.HasShape (line : Line) : Shape → Prop
  /-- The operation `opcode` and its `operands`. -/
  | plain {name : String} {operands : List String} {opcode : Opcode}
      (htokens : line.tokens = name :: operands) (hname : Opcode.ofMnemonic? name = some opcode) :
      HasShape line (.plain opcode operands)
  /-- The label `label`, the operation `opcode` and its `operands`. -/
  | labelled {label name : String} {operands : List String} {opcode : Opcode}
      (htokens : line.tokens = label :: name :: operands)
      (hlabel : Opcode.ofMnemonic? label = none) (hname : Opcode.ofMnemonic? name = some opcode) :
      HasShape line (.labelled label opcode operands)
  /-- The label `label` alone. -/
  | lone {label : String} (htokens : line.tokens = [label])
      (hlabel : Opcode.ofMnemonic? label = none) : HasShape line (.lone label)

/-- The operation on a line of this `Shape`, with the texts of its operands. -/
def Shape.operation? : Shape → Option (Opcode × List String)
  | plain opcode operands | labelled _ opcode operands => some (opcode, operands)
  | lone _ | unknown _ => none

/-- The operations on the lines `shapes`, in order. Each becomes the instruction of its place in the
list. -/
def operations (shapes : List Shape) : List (Opcode × List String) :=
  shapes.filterMap Shape.operation?

/-- `label` is defined at `n`, the number of operations on the lines before it. -/
def Defines (shapes : List Shape) (label : String) (n : Nat) : Prop :=
  ∃ before s after, shapes = before ++ s :: after ∧ s.label? = some label ∧
    n = (operations before).length

/-- The operand `token` is neither the name of a trap nor a decimal number. -/
def IsLabel (token : String) : Prop :=
  Trap.ofName? token = none ∧ Numeral.parse? 10 token = none

/-- What an operand of the instruction with number `i` stands for. -/
inductive Resolves (shapes : List Shape) (i : Nat) : String → Word → Prop
  /-- The name of the trap `t` stands for its code. -/
  | trap {token : String} {t : Trap} (h : Trap.ofName? token = some t) :
      Resolves shapes i token t.code
  /-- A decimal number stands for its value `w`. -/
  | number {token : String} {w : Word} (hname : Trap.ofName? token = none)
      (h : Numeral.parse? 10 token = some w) : Resolves shapes i token w
  /-- A label that is defined at `target` stands for the offset to there from the next
  instruction. -/
  | label {token : String} {target : Nat} {w : Word} (htoken : IsLabel token)
      (hdefined : Defines shapes token target) (hw : w.toInt = target - (i + 1)) :
      Resolves shapes i token w

/-- The instruction with number `i` is that of an operation and its operands. -/
structure Translates (shapes : List Shape) (i : Nat) (operation : Opcode × List String)
    (instruction : Instruction) : Prop where
  /-- The operation is the same. -/
  opcode : instruction.opcode = operation.1
  /-- Each operand stands for its word. -/
  operands : List.Forall₂ (Resolves shapes i) operation.2 instruction.operands
  /-- The slots that are not used are zero. -/
  built : instruction.IsBuilt

variable {line : Line} {lines : List Line} {s : Shape} {shapes : List Shape} {label token : String}
  {labels labels' : Labels} {index i k n : Nat} {statements : List Statement}

/-! ## Lines of a text -/

/-- A character `c` that is no separator is in one of the pieces. -/
theorem exists_piece_of_mem {p : Char → Bool} {cs : List Char} {c : Char} (hc : c ∈ cs)
    (hp : p c = false) : ∃ piece ∈ cs.splitOnP p, c ∈ piece := by
  induction cs with
  | nil => exact absurd hc List.not_mem_nil
  | cons x cs ih =>
    rw [List.splitOnP_cons_eq_if_modifyHead]
    split
    · rename_i hx
      have hrest : c ∈ cs := (List.mem_cons.1 hc).resolve_left fun heq => by simp [← heq, hp] at hx
      obtain ⟨piece, hpiece, hmem⟩ := ih hrest
      exact ⟨piece, List.mem_cons_of_mem _ hpiece, hmem⟩
    · obtain ⟨first, others, hsplit⟩ := List.exists_cons_of_ne_nil (List.splitOnP_ne_nil p cs)
      rw [hsplit] at ih ⊢
      rcases List.mem_cons.1 hc with rfl | hrest
      · exact ⟨c :: first, List.mem_cons_self, List.mem_cons_self⟩
      · obtain ⟨piece, hpiece, hmem⟩ := ih hrest
        rcases List.mem_cons.1 hpiece with rfl | hother
        · exact ⟨x :: piece, List.mem_cons_self, List.mem_cons_of_mem _ hmem⟩
        · exact ⟨piece, List.mem_cons_of_mem _ hother, hmem⟩

/-- What `Text.trim` leaves of `cs` has a character that is not blank. -/
theorem exists_mem_trim {cs : List Char} (h : Text.trim cs ≠ []) :
    ∃ c ∈ Text.trim cs, Text.isBlank c = false := by
  rw [Text.trim, ne_eq, List.reverse_eq_nil_iff] at h
  exact ⟨_, List.mem_reverse.2 (List.head_mem h), List.head_dropWhile_not Text.isBlank h⟩

/-- A line of `linesOf text` holds at least one word. -/
theorem tokens_ne_nil {text : String} {line : Line} (h : line ∈ linesOf text) :
    line.tokens ≠ [] := by
  obtain ⟨⟨raw, number⟩, -, hkept⟩ := List.mem_filterMap.1 h
  simp only at hkept
  split at hkept
  · simp at hkept
  · rename_i hnonempty
    cases hkept
    obtain ⟨c, hc, hblank⟩ := exists_mem_trim (by simpa [cleaned] using hnonempty)
    obtain ⟨piece, hpiece, hmem⟩ := exists_piece_of_mem hc hblank
    have hword : piece ∈ Text.words (cleaned raw) :=
      List.mem_filter.2 ⟨hpiece, by simpa using List.ne_nil_of_mem hmem⟩
    exact List.ne_nil_of_mem (List.mem_map_of_mem hword)

/-! ## Numbering -/

theorem operations_cons (s : Shape) (shapes : List Shape) :
    operations (s :: shapes) = s.operation?.toList ++ operations shapes := by
  unfold operations
  cases h : s.operation? with
  | none => rw [List.filterMap_cons_none h, Option.toList_none, List.nil_append]
  | some operation => rw [List.filterMap_cons_some h, Option.toList_some, List.singleton_append]

theorem not_defines_nil : ¬ Defines [] label n := by
  rintro ⟨before, s, after, hshapes, -⟩
  simp at hshapes

/-- `label` is defined on the first line `s`, or on a later one, where the operation of `s` is
counted. -/
theorem defines_cons : Defines (s :: shapes) label n ↔
    (s.label? = some label ∧ n = 0) ∨
      ∃ k, Defines shapes label k ∧ n = s.operation?.toList.length + k := by
  constructor
  · rintro ⟨before, s', after, hshapes, hlabel, rfl⟩
    cases before with
    | nil =>
      obtain ⟨rfl, rfl⟩ : s = s' ∧ shapes = after := by simpa using hshapes
      exact .inl ⟨hlabel, rfl⟩
    | cons s'' before =>
      obtain ⟨rfl, rfl⟩ : s = s'' ∧ shapes = before ++ s' :: after := by simpa using hshapes
      refine .inr ⟨_, ⟨before, s', after, rfl, hlabel, rfl⟩, ?_⟩
      rw [operations_cons, List.length_append]
  · rintro (⟨hlabel, rfl⟩ | ⟨k, ⟨before, s', after, rfl, hlabel, rfl⟩, rfl⟩)
    · exact ⟨[], s, shapes, rfl, hlabel, rfl⟩
    · refine ⟨s :: before, s', after, rfl, hlabel, ?_⟩
      rw [operations_cons, List.length_append]

/-- `label` is defined at an instruction or right after the last one. -/
theorem Defines.le (h : Defines shapes label n) : n ≤ (operations shapes).length := by
  obtain ⟨before, s, after, rfl, -, rfl⟩ := h
  unfold operations
  rw [List.filterMap_append, List.length_append]
  omega

theorem length_operations_le (h : List.Forall₂ Line.HasShape lines shapes) :
    (operations shapes).length ≤ lines.length := by
  rw [h.length_eq]
  exact List.length_filterMap_le ..

/-! ## Collecting labels and statements -/

/-- The numbers of labels when the definitions on lines, of which the first has number `index`, are
added to those that there are. -/
def Stands (labels : Labels) (index : Nat) (shapes : List Shape) (label : String) (n : Nat) :
    Prop :=
  labels.lookup label = some n ∨ ∃ k, Defines shapes label k ∧ n = index + k

/-- `defined` has no label at two numbers. -/
def Unambiguous (defined : String → Nat → Prop) : Prop :=
  ∀ label m n, defined label m → defined label n → m = n

theorem lookup_define (h : labels.define label index = .ok labels') (token : String) (n : Nat) :
    labels'.lookup token = some n ↔
      labels.lookup token = some n ∨ (label = token ∧ n = index) := by
  unfold Labels.define at h
  cases hfirst : labels.lookup label with
  | none =>
    simp only [hfirst] at h
    cases h
    rw [List.lookup_cons]
    by_cases htoken : token = label
    · subst htoken
      simp [hfirst, eq_comm]
    · have hother : (token == label) = false := by simpa using htoken
      simp [hother, Ne.symm htoken]
  | some first =>
    simp only [hfirst] at h
    split at h
    · rename_i hsame
      cases h
      refine ⟨.inl, ?_⟩
      rintro (h | ⟨rfl, rfl⟩)
      · exact h
      · rw [hfirst, hsame]
    · cases h

/-- `defineFor` adds the label of the line `s` to the definitions. -/
theorem lookup_defineFor (h : labels.defineFor s index = .ok labels') (token : String) (n : Nat) :
    labels'.lookup token = some n ↔
      labels.lookup token = some n ∨ (s.label? = some token ∧ n = index) := by
  unfold Labels.defineFor at h
  cases hlabel : s.label? with
  | none =>
    simp only [hlabel] at h
    cases h
    simp
  | some label =>
    simp only [hlabel] at h
    rw [lookup_define h, Option.some.injEq]

/-- The label of `s` can be added if it does not stand for something else. -/
theorem exists_defineFor (h : ∀ label n, s.label? = some label → labels.lookup label = some n →
    n = index) : ∃ labels', labels.defineFor s index = .ok labels' := by
  unfold Labels.defineFor Labels.define
  cases hlabel : s.label? with
  | none => exact ⟨labels, rfl⟩
  | some label =>
    cases hfirst : labels.lookup label with
    | none => exact ⟨(label, index) :: labels, by simp only [hfirst]⟩
    | some first => exact ⟨labels, by simp only [hfirst, if_pos (h label first hlabel hfirst)]⟩

theorem stands_cons (h : labels.defineFor s index = .ok labels') (label : String) (n : Nat) :
    Stands labels' (index + s.operation?.toList.length) shapes label n ↔
      Stands labels index (s :: shapes) label n := by
  unfold Stands
  simp only [lookup_defineFor h, defines_cons]
  constructor
  · rintro ((hfirst | ⟨hlabel, rfl⟩) | ⟨k, hk, rfl⟩)
    · exact .inl hfirst
    · exact .inr ⟨0, .inl ⟨hlabel, rfl⟩, rfl⟩
    · exact .inr ⟨_, .inr ⟨k, hk, rfl⟩, Nat.add_assoc ..⟩
  · rintro (hfirst | ⟨_, ⟨hlabel, rfl⟩ | ⟨k, hk, rfl⟩, rfl⟩)
    · exact .inl (.inl hfirst)
    · exact .inl (.inr ⟨hlabel, rfl⟩)
    · exact .inr ⟨k, hk, (Nat.add_assoc ..).symm⟩

/-- `collect` on one line: its label is defined and its operation goes in front of the others. -/
theorem collect_cons (h : line.HasShape s) (labels : Labels) (index : Nat) (lines : List Line) :
    collect labels index (line :: lines) = do
      let labels ← labels.defineFor s index
      let r ← collect labels (index + s.operation?.toList.length) lines
      return (r.1, (s.operation?.map fun o => ⟨line.number, o.1, o.2⟩).toList ++ r.2) := by
  cases h with
  | plain htokens hname =>
    rw [collect, htokens]
    simp only [shape, hname]
    rfl
  | labelled htokens hlabel hname =>
    rw [collect, htokens]
    simp only [shape, hlabel, hname]
    rfl
  | lone htokens hlabel =>
    rw [collect, htokens]
    simp only [shape, hlabel]
    congr 1
    funext labels
    show collect labels index lines = collect labels index lines >>= fun r => pure (r.1, [] ++ r.2)
    cases collect labels index lines <;> rfl

/-- If `collect` succeeds, the first line can be assembled. -/
theorem hasShape_of_collect {r : Labels × List Statement} (hline : line.tokens ≠ [])
    (h : collect labels index (line :: lines) = .ok r) : ∃ s, line.HasShape s := by
  obtain ⟨first, others, htokens⟩ := List.exists_cons_of_ne_nil hline
  cases hfirst : Opcode.ofMnemonic? first with
  | some opcode => exact ⟨_, .plain htokens hfirst⟩
  | none =>
    cases others with
    | nil => exact ⟨_, .lone htokens hfirst⟩
    | cons second operands =>
      cases hsecond : Opcode.ofMnemonic? second with
      | some opcode => exact ⟨_, .labelled htokens hfirst hsecond⟩
      | none =>
        -- after its label the line has no operation
        rw [collect, htokens] at h
        simp only [shape, hfirst, hsecond] at h
        obtain ⟨labels', -, h⟩ := ok_of_bind h
        cases h

theorem exists_shapes_of_collect {r : Labels × List Statement}
    (hlines : ∀ line ∈ lines, line.tokens ≠ []) (h : collect labels index lines = .ok r) :
    ∃ shapes, List.Forall₂ Line.HasShape lines shapes := by
  induction lines generalizing labels index r with
  | nil => exact ⟨[], .nil⟩
  | cons line lines ih =>
    obtain ⟨s, hs⟩ := hasShape_of_collect (hlines line List.mem_cons_self) h
    rw [collect_cons hs] at h
    obtain ⟨labels', -, h⟩ := ok_of_bind h
    obtain ⟨r', hr', -⟩ := ok_of_bind h
    obtain ⟨shapes, hshapes⟩ := ih (fun l hl => hlines l (List.mem_cons_of_mem _ hl)) hr'
    exact ⟨s :: shapes, .cons hs hshapes⟩

/-- The `statements` that are collected are the operations on the lines, and the labels `labels'`
have the numbers at which they are defined. -/
theorem collect_spec (hshapes : List.Forall₂ Line.HasShape lines shapes)
    (h : collect labels index lines = .ok (labels', statements)) :
    statements.map (fun statement => (statement.opcode, statement.operands)) = operations shapes ∧
      ∀ label n, labels'.lookup label = some n ↔ Stands labels index shapes label n := by
  -- the lines are gone through as they are collected, with the labels and the number reached so far
  induction hshapes generalizing labels index statements with
  | nil =>
    cases h
    exact ⟨rfl, fun label n => by simp [Stands, not_defines_nil]⟩
  | @cons line s lines shapes hs _ ih =>
    rw [collect_cons hs] at h
    obtain ⟨labels₁, hdefine, h⟩ := ok_of_bind h
    obtain ⟨⟨labels₂, statements₂⟩, hcollect, h⟩ := ok_of_bind h
    cases h
    obtain ⟨hstatements, hlabels⟩ := ih hcollect
    refine ⟨?_, fun label n => (hlabels label n).trans (stands_cons hdefine label n)⟩
    rw [List.map_append, hstatements, operations_cons]
    cases s.operation? <;> rfl

/-- `collect` succeeds if no label stands for two instructions. -/
theorem exists_collect (hshapes : List.Forall₂ Line.HasShape lines shapes)
    (h : Unambiguous (Stands labels index shapes)) : ∃ r, collect labels index lines = .ok r := by
  induction hshapes generalizing labels index with
  | nil => exact ⟨_, rfl⟩
  | @cons line s lines shapes hs _ ih =>
    -- what the label stood for before must be the number of the line
    obtain ⟨labels', hdefine⟩ : ∃ labels', labels.defineFor s index = .ok labels' :=
      exists_defineFor fun label n hlabel hfirst =>
        h label n index (.inl hfirst) (.inr ⟨0, defines_cons.2 (.inl ⟨hlabel, rfl⟩), rfl⟩)
    obtain ⟨r, hr⟩ := ih fun label m n hm hn =>
      h label m n ((stands_cons hdefine label m).1 hm) ((stands_cons hdefine label n).1 hn)
    rw [collect_cons hs, hdefine]
    simp only [bind, Except.bind, hr]
    exact ⟨_, rfl⟩

/-- With no labels to begin with, `label` stands for the number at which a line defines it. -/
theorem stands_nil (label : String) (n : Nat) :
    Stands [] 0 shapes label n ↔ Defines shapes label n := by
  simp [Stands]

/-! ## Putting operands in place -/

/-- The offset from `i + 1` to `target`, both in the range of words, does not wrap around. -/
theorem toInt_offset {target : Nat} (htarget : target < 2 ^ 31) (hi : i + 1 < 2 ^ 31) :
    (Word.ofCount target - (Word.ofCount i + 1)).toInt = target - (i + 1) := by
  -- as whole numbers the three words are in range, and the difference is too
  have hcount : ∀ m : Nat, m < 2 ^ 31 → Word.ofCount m = Int32.ofInt m := fun m hm => by
    rw [← Int32.toInt_inj, Word.ofCount, Int32.toInt_ofNat_of_lt hm,
      Int32.toInt_ofInt_of_le (by omega) (by omega)]
  rw [hcount target htarget, hcount i (by omega), show (1 : Word) = Int32.ofInt 1 from rfl,
    ← Int32.ofInt_add, ← Int32.ofInt_sub, Int32.toInt_ofInt_of_le (by omega) (by omega)]

theorem resolves_trap_iff {t : Trap} {w : Word} (h : Trap.ofName? token = some t) :
    Resolves shapes i token w ↔ w = t.code := by
  constructor
  · rintro (h' | ⟨h', -⟩ | ⟨⟨h', -⟩, -, -⟩)
    · rw [Option.some.inj (h.symm.trans h')]
    · exact absurd h' (by simp [h])
    · exact absurd h' (by simp [h])
  · rintro rfl
    exact .trap h

theorem resolves_number_iff {v w : Word} (hname : Trap.ofName? token = none)
    (h : Numeral.parse? 10 token = some v) : Resolves shapes i token w ↔ w = v := by
  constructor
  · rintro (h' | ⟨-, h'⟩ | ⟨⟨-, h'⟩, -, -⟩)
    · exact absurd h' (by simp [hname])
    · exact Option.some.inj (h'.symm.trans h)
    · exact absurd h' (by simp [h])
  · rintro rfl
    exact .number hname h

theorem resolves_label_iff {w : Word} (h : IsLabel token) :
    Resolves shapes i token w ↔
      ∃ target, Defines shapes token target ∧ w.toInt = target - (i + 1) := by
  constructor
  · rintro (h' | ⟨-, h'⟩ | ⟨-, hdefined, hw⟩)
    · exact absurd h' (by simp [h.1])
    · exact absurd h' (by simp [h.2])
    · exact ⟨_, hdefined, hw⟩
  · rintro ⟨target, hdefined, hw⟩
    exact .label h hdefined hw

/-- `operand` assembles `token` to the word `w` for which it stands, and to no other. -/
theorem operand_eq_ok_iff {number : Nat} {w : Word}
    (hlabels : ∀ label n, labels.lookup label = some n ↔ Defines shapes label n)
    (hcount : (operations shapes).length + 1 < 2 ^ 31) (hi : i < (operations shapes).length) :
    operand labels number i token = .ok w ↔ Resolves shapes i token w := by
  have hoffset : ∀ {target : Nat}, Defines shapes token target →
      (Word.ofCount target - (Word.ofCount i + 1)).toInt = target - (i + 1) := fun hdefined => by
    have hle := hdefined.le
    exact toInt_offset (by omega) (by omega)
  -- the token is looked up among the trap names, then read as a number, then looked up as a label
  unfold operand
  cases hname : Trap.ofName? token with
  | some t => simp [resolves_trap_iff hname, eq_comm]
  | none =>
    cases hnumber : Numeral.parse? 10 token with
    | some v => simp [resolves_number_iff hname hnumber, eq_comm]
    | none =>
      rw [resolves_label_iff ⟨hname, hnumber⟩]
      cases htarget : labels.lookup token with
      | none =>
        constructor
        · rintro ⟨⟩
        · rintro ⟨target, hdefined, -⟩
          exact absurd ((hlabels _ _).2 hdefined) (by simp [htarget])
      | some target =>
        have hdefined := (hlabels _ _).1 htarget
        constructor
        · rintro ⟨⟩
          exact ⟨target, hdefined, hoffset hdefined⟩
        · rintro ⟨target', hdefined', hw⟩
          obtain rfl := Option.some.inj (htarget.symm.trans ((hlabels _ _).2 hdefined'))
          rw [← Int32.toInt_inj.1 ((hoffset hdefined).trans hw.symm)]

/-- `encode` assembles `statement` to the instruction of its operation and its operands, and to no
other. -/
theorem encode_eq_ok_iff {statement : Statement} {instruction : Instruction}
    (hlabels : ∀ label n, labels.lookup label = some n ↔ Defines shapes label n)
    (hcount : (operations shapes).length + 1 < 2 ^ 31) (hi : i < (operations shapes).length) :
    encode labels i statement = .ok instruction ↔
      Translates shapes i (statement.opcode, statement.operands) instruction := by
  have hoperands : ∀ words, statement.operands.mapM (operand labels statement.line i) = .ok words ↔
      List.Forall₂ (Resolves shapes i) statement.operands words := fun words => by
    rw [mapM_eq_ok_iff]
    simp only [operand_eq_ok_iff hlabels hcount hi]
  constructor
  · intro h
    have hbuilt := isBuilt_of_encode h
    obtain ⟨words, hwords, h⟩ := ok_of_bind h
    split at h
    · rename_i made hmade
      cases h
      obtain ⟨hopcode, hsame⟩ := Instruction.operands_of_ofOperands hmade
      exact ⟨hopcode, hsame ▸ (hoperands words).1 hwords, hbuilt⟩
    · cases h
  · rintro ⟨hopcode, hall, hbuilt⟩
    have hmade := hbuilt.ofOperands_operands
    rw [show instruction.opcode = statement.opcode from hopcode] at hmade
    simp only [encode, (hoperands _).2 hall, bind, Except.bind, hmade]

/-- There is a list related to `as` item by item by `R` if each item of `as` is related to
something. -/
theorem exists_forall₂_iff {α β : Type} {R : α → β → Prop} {as : List α} :
    (∃ bs, List.Forall₂ R as bs) ↔ ∀ a ∈ as, ∃ b, R a b := by
  induction as with
  | nil => simp
  | cons a as ih =>
    rw [List.forall_mem_cons, ← ih]
    constructor
    · rintro ⟨_, _ | ⟨hb, hbs⟩⟩
      exact ⟨⟨_, hb⟩, _, hbs⟩
    · rintro ⟨⟨b, hb⟩, bs, hbs⟩
      exact ⟨b :: bs, .cons hb hbs⟩

/-- The operand `token` stands for something unless it is a label that is not defined. -/
theorem exists_resolves (hcount : (operations shapes).length + 1 < 2 ^ 31)
    (hi : i < (operations shapes).length) :
    (∃ w, Resolves shapes i token w) ↔ (IsLabel token → ∃ n, Defines shapes token n) := by
  constructor
  · rintro ⟨w, hw⟩ hlabel
    obtain ⟨target, hdefined, -⟩ := (resolves_label_iff hlabel).1 hw
    exact ⟨target, hdefined⟩
  · intro h
    cases hname : Trap.ofName? token with
    | some t => exact ⟨_, .trap hname⟩
    | none =>
      cases hnumber : Numeral.parse? 10 token with
      | some w => exact ⟨w, .number hname hnumber⟩
      | none =>
        obtain ⟨target, hdefined⟩ := h ⟨hname, hnumber⟩
        have hle := hdefined.le
        exact ⟨_, .label ⟨hname, hnumber⟩ hdefined (toInt_offset (by omega) (by omega))⟩

/-- `operation` is translated if it has as many operands as it takes and its labels are defined. -/
theorem exists_translates {operation : Opcode × List String}
    (hcount : (operations shapes).length + 1 < 2 ^ 31) (hi : i < (operations shapes).length) :
    (∃ instruction, Translates shapes i operation instruction) ↔
      operation.2.length = operation.1.arity ∧
        ∀ token ∈ operation.2, IsLabel token → ∃ n, Defines shapes token n := by
  have hresolves : (∃ words, List.Forall₂ (Resolves shapes i) operation.2 words) ↔
      ∀ token ∈ operation.2, IsLabel token → ∃ n, Defines shapes token n := by
    rw [exists_forall₂_iff]
    exact forall₂_congr fun token _ => exists_resolves hcount hi
  rw [← hresolves]
  constructor
  · rintro ⟨instruction, hopcode, hall, -⟩
    refine ⟨?_, _, hall⟩
    rw [hall.length_eq, Instruction.operands, List.length_take, hopcode]
    have hmost := operation.1.arity_le
    simp only [Instruction.slots, List.length_cons, List.length_nil]
    omega
  · rintro ⟨harity, words, hall⟩
    have hmade : Instruction.ofOperands operation.1 words =
        .ok ⟨operation.1, words.getD 0 0, words.getD 1 0, words.getD 2 0⟩ := by
      rw [Instruction.ofOperands, if_pos (hall.length_eq.symm.trans harity)]
    obtain ⟨hopcode, hsame⟩ := Instruction.operands_of_ofOperands hmade
    exact ⟨_, hopcode, hsame.symm ▸ hall, .ofOperands hmade⟩

/-! ## Whole sections -/

/-- What `assembleCode` makes of `lines` when `labels` and `statements` have been collected. -/
theorem assembleCode_eq_ok_iff {code : List Instruction}
    (hshapes : List.Forall₂ Line.HasShape lines shapes) (hcount : lines.length + 1 < 2 ^ 31)
    (hcollect : collect [] 0 lines = .ok (labels, statements)) :
    assembleCode lines = .ok code ↔
      List.Forall₂ (fun o instruction => Translates shapes o.2 o.1 instruction)
        (operations shapes).zipIdx code := by
  obtain ⟨hstatements, hstands⟩ := collect_spec hshapes hcollect
  -- collecting begins without labels, so all that there are come from the lines
  have hlabels := fun label n => (hstands label n).trans (stands_nil label n)
  have hle := length_operations_le hshapes
  have hzip : (operations shapes).zipIdx =
      statements.zipIdx.map fun o => ((o.1.opcode, o.1.operands), o.2) := by
    rw [← hstatements, List.zipIdx_map]
    rfl
  have hlength : statements.length = (operations shapes).length := by
    rw [← hstatements, List.length_map]
  rw [assembleCode, hcollect, hzip, List.forall₂_map_left_iff]
  simp only [bind, Except.bind]
  rw [mapM_eq_ok_iff, List.forall₂_iff_get, List.forall₂_iff_get]
  refine and_congr_right fun _ => forall_congr' fun n => forall_congr' fun hn => ?_
  rw [List.length_zipIdx] at hn
  simp only [List.get_eq_getElem, List.getElem_zipIdx, Nat.zero_add,
    encode_eq_ok_iff hlabels (by omega : (operations shapes).length + 1 < 2 ^ 31) (hlength ▸ hn)]

/-- When `labels` and `statements` have been collected, a section assembles if the operations have
as many operands as they take and all labels among these are defined. -/
theorem exists_code_iff (hshapes : List.Forall₂ Line.HasShape lines shapes)
    (hcount : lines.length + 1 < 2 ^ 31)
    (hcollect : collect [] 0 lines = .ok (labels, statements)) :
    (∃ code, assembleCode lines = .ok code) ↔ ∀ operation ∈ operations shapes,
      operation.2.length = operation.1.arity ∧
        ∀ token ∈ operation.2, IsLabel token → ∃ n, Defines shapes token n := by
  have hle := length_operations_le hshapes
  have htranslates : ∀ {operation : Opcode × List String} {i : Nat},
      (operations shapes)[i]? = some operation →
      ((∃ instruction, Translates shapes i operation instruction) ↔
        operation.2.length = operation.1.arity ∧
          ∀ token ∈ operation.2, IsLabel token → ∃ n, Defines shapes token n) := fun hi =>
    exists_translates (by omega) (List.getElem?_eq_some_iff.1 hi).1
  simp only [assembleCode_eq_ok_iff hshapes hcount hcollect, exists_forall₂_iff]
  constructor
  · intro h operation hmem
    obtain ⟨i, hi⟩ := List.mem_iff_getElem?.1 hmem
    exact (htranslates hi).1 (h (operation, i) (List.mem_zipIdx_iff_getElem?.2 hi))
  · rintro h ⟨operation, i⟩ hmem
    have hi := List.mem_zipIdx_iff_getElem?.1 hmem
    exact (htranslates hi).2 (h operation (List.mem_of_getElem? hi))

/-- If `assembleCode` succeeds, so does `collect`. -/
theorem exists_collect_of_assembleCode {code : List Instruction}
    (h : assembleCode lines = .ok code) :
    ∃ labels statements, collect [] 0 lines = .ok (labels, statements) := by
  obtain ⟨⟨labels, statements⟩, hcollect, -⟩ := ok_of_bind h
  exact ⟨labels, statements, hcollect⟩

/-- Labels that `collect` accepts are unambiguous. -/
theorem unambiguous_of_collect (hshapes : List.Forall₂ Line.HasShape lines shapes)
    (h : collect [] 0 lines = .ok (labels, statements)) : Unambiguous (Defines shapes) := by
  intro label m n hm hn
  have hlabels := (collect_spec hshapes h).2 label
  rw [← stands_nil, ← hlabels] at hm hn
  exact Option.some.inj (hm.symm.trans hn)

/-- The instructions `code` of a section, one by one. -/
theorem translates_of_assembleCode {code : List Instruction}
    (hshapes : List.Forall₂ Line.HasShape lines shapes) (hcount : lines.length + 1 < 2 ^ 31)
    (h : assembleCode lines = .ok code) :
    code.length = (operations shapes).length ∧ ∀ (i : Nat) operation instruction,
      (operations shapes)[i]? = some operation → code[i]? = some instruction →
      Translates shapes i operation instruction := by
  obtain ⟨labels, statements, hcollect⟩ := exists_collect_of_assembleCode h
  have hall := (assembleCode_eq_ok_iff hshapes hcount hcollect).1 h
  refine ⟨?_, fun i operation instruction ho hi => ?_⟩
  · rw [← hall.length_eq, List.length_zipIdx]
  · obtain ⟨ho', rfl⟩ := List.getElem?_eq_some_iff.1 ho
    obtain ⟨hi', rfl⟩ := List.getElem?_eq_some_iff.1 hi
    simpa using hall.get (by simpa using ho') hi'

end JobText

/-! ## Branches -/

namespace Processor

variable {cpu : Processor} {i : Instruction} {offset : Word} {n target : Nat}

/-- The instruction `i` branches by its last operand. -/
theorem getLast?_operands (h : cpu.Means i (.branch offset)) :
    i.operands.getLast? = some offset := by
  cases h with
  | jump => rfl
  | taken condition _ _ => cases condition <;> rfl

/-- A branch that is taken adds `offset` to the program counter, which then advances. -/
theorem step_branch (hpc : cpu.regs.pc.toInt = n) (hi : cpu.program[n]? = some i)
    (h : cpu.Means i (.branch offset)) :
    cpu.step.2.regs.pc = cpu.regs.pc + offset + 1 ∧ cpu.step.2.program = cpu.program := by
  have hstep : cpu.step.2 = (cpu.apply (.branch offset)).finish i := by
    simp only [step, fetch?_eq_some hpc hi, evaluate_of_means h]
  have hfinishes := h.finishes
  have hafter := hfinishes.pc
  rw [Registers.get?_zero, Effect.registers, Function.update_self, Registers.get?_zero] at hafter
  rw [hstep]
  exact ⟨Option.some.inj hafter, hfinishes.program⟩

/-- The offset from the instruction after `n` leads to `target`, as the program counter advances. -/
theorem toInt_branch {pc : Word} (hpc : pc.toInt = n) (hoffset : offset.toInt = target - (n + 1))
    (htarget : target < 2 ^ 31) : (pc + offset + 1).toInt = target := by
  -- the sum is taken on whole numbers, where it does not wrap around
  have hsum : pc + offset + 1 = Int32.ofInt target := by
    rw [← Int32.ofInt_toInt pc, ← Int32.ofInt_toInt offset,
      show (1 : Word) = Int32.ofInt 1 from rfl, ← Int32.ofInt_add, ← Int32.ofInt_add, hpc, hoffset]
    congr 1
    omega
  rw [hsum, Int32.toInt_ofInt_of_le (by omega) (by omega)]

/-- A program counter `n` in the image, or right after it, is no illegal one. -/
theorem tick_ne_illegalFetch (hpc : cpu.regs.pc.toInt = n) (hn : n ≤ cpu.program.size)
    (live : Bool) (pc : Word) (size : Nat) :
    (cpu.tick live).1 ≠ .stepped (.error (.illegalFetch pc size)) := by
  intro h
  unfold tick at h
  split at h
  · cases h
  split at h
  · cases h
  split at h
  · cases h
  · rename_i hinside
    have hlt : n < cpu.program.size := by
      refine Nat.lt_of_le_of_ne hn fun heq => hinside ?_
      rw [atEnd, Word.index?_eq_some_iff.2 hpc, heq, beq_self_eq_true]
    have hfetch := fetch?_eq_some hpc (Array.getElem?_eq_getElem hlt)
    simp only [step, hfetch, Activity.stepped.injEq] at h
    cases heval : cpu.evaluate cpu.program[n] with
    | ok e => simp [heval] at h
    | error fault =>
      -- no instruction that is there fails for not being there
      have hblames := blames_of_evaluate heval
      simp only [heval, Except.error.injEq] at h
      subst h
      cases hblames

end Processor

namespace JobText

variable {lines : List Line}

/-- Lists related by `R` item by item are related at their ends. -/
private theorem forall₂_getLast? {α β : Type} {R : α → β → Prop} {as : List α} {bs : List β} {a : α}
    {b : β} (h : List.Forall₂ R as bs) (ha : as.getLast? = some a) (hb : bs.getLast? = some b) :
    R a b := by
  rw [List.getLast?_eq_getElem?] at ha hb
  obtain ⟨hi, rfl⟩ := List.getElem?_eq_some_iff.1 ha
  obtain ⟨hi', rfl⟩ := List.getElem?_eq_some_iff.1 hb
  have hlast := h.get hi (h.length_eq ▸ hi')
  simpa only [List.get_eq_getElem, h.length_eq] using hlast

/-- `lines` assemble exactly when every line holds an operation, a label, or both, no label is
defined at two numbers, every label among the operands is defined, and every operation has as many
operands as it takes. Then `code` has one instruction for each operation, and its operands are what
they stand for. A branch by a label leads to the instruction that the label stands for, or right
behind the last one, and is no illegal fetch there. -/
theorem assembleCode_resolves (hlines : ∀ line ∈ lines, line.tokens ≠ [])
    (hcount : lines.length < 2 ^ 31 - 1) :
    ((∃ code, assembleCode lines = .ok code) ↔
      ∃ shapes, List.Forall₂ Line.HasShape lines shapes ∧ Unambiguous (Defines shapes) ∧
        ∀ operation ∈ operations shapes, operation.2.length = operation.1.arity ∧
          ∀ token ∈ operation.2, IsLabel token → ∃ n, Defines shapes token n) ∧
    ∀ code shapes, assembleCode lines = .ok code → List.Forall₂ Line.HasShape lines shapes →
      code.length = (operations shapes).length ∧
      (∀ (i : Nat) operation instruction, (operations shapes)[i]? = some operation →
        code[i]? = some instruction → Translates shapes i operation instruction) ∧
      ∀ (cpu : Processor) (i target : Nat) operation instruction offset label,
        cpu.program = code.toArray → cpu.regs.pc.toInt = i →
        (operations shapes)[i]? = some operation → code[i]? = some instruction →
        cpu.Means instruction (.branch offset) → operation.2.getLast? = some label →
        IsLabel label → Defines shapes label target →
        cpu.step.2.regs.pc.toInt = target ∧ target ≤ code.length ∧
        ∀ live pc size, (cpu.step.2.tick live).1 ≠ .stepped (.error (.illegalFetch pc size)) := by
  have hcount' : lines.length + 1 < 2 ^ 31 := by omega
  refine ⟨⟨?_, ?_⟩, fun code shapes hcode hshapes => ?_⟩
  · rintro ⟨code, hcode⟩
    obtain ⟨labels, statements, hcollect⟩ := exists_collect_of_assembleCode hcode
    obtain ⟨shapes, hshapes⟩ := exists_shapes_of_collect hlines hcollect
    exact ⟨shapes, hshapes, unambiguous_of_collect hshapes hcollect,
      (exists_code_iff hshapes hcount' hcollect).1 ⟨code, hcode⟩⟩
  · rintro ⟨shapes, hshapes, hunambiguous, hoperations⟩
    have hstands : Unambiguous (Stands [] 0 shapes) := fun label m n hm hn =>
      hunambiguous label m n ((stands_nil label m).1 hm) ((stands_nil label n).1 hn)
    obtain ⟨⟨labels, statements⟩, hcollect⟩ := exists_collect hshapes hstands
    exact (exists_code_iff hshapes hcount' hcollect).2 hoperations
  · obtain ⟨hlength, htranslates⟩ := translates_of_assembleCode hshapes hcount' hcode
    refine ⟨hlength, htranslates, ?_⟩
    intro cpu i target operation instruction offset label hprogram hpc ho hi hbranch hlast hlabel
      hdefined
    have hresolves := forall₂_getLast? (htranslates i _ _ ho hi).operands hlast
      (Processor.getLast?_operands hbranch)
    obtain ⟨labels, statements, hcollect⟩ := exists_collect_of_assembleCode hcode
    -- the offset is that of some definition of the label, and there is only one
    obtain ⟨target', hdefined', hoffset⟩ := (resolves_label_iff hlabel).1 hresolves
    obtain rfl := unambiguous_of_collect hshapes hcollect label _ _ hdefined hdefined'
    have htarget : target ≤ code.length := hlength ▸ hdefined.le
    have hle := length_operations_le hshapes
    obtain ⟨hpc', hprogram'⟩ := Processor.step_branch hpc (by rwa [hprogram, List.getElem?_toArray])
      hbranch
    have hlands : cpu.step.2.regs.pc.toInt = target := by
      rw [hpc', Processor.toInt_branch hpc hoffset (by omega)]
    refine ⟨hlands, htarget, Processor.tick_ne_illegalFetch hlands ?_⟩
    rwa [hprogram', hprogram, List.size_toArray]

/-- A loop that counts down and then goes on to the end. -/
def loopText : String :=
  "top SUBI 1, 1, 1\n    BNEZ 1, top % again\n    JMP end\nend\n"

/-- What the lines of `loopText` hold. -/
def loopShapes : List Shape :=
  [.labelled "top" .subi ["1", "1", "1"], .plain .bnezi ["1", "top"], .plain .jmpi ["end"],
    .lone "end"]

/-- The instructions of `loopText`. -/
def loopCode : List Instruction :=
  [⟨.subi, 1, 1, 1⟩, ⟨.bnezi, 1, -2, 0⟩, ⟨.jmpi, 0, 0, 0⟩]

/-- A processor in `loopCode` at `pc`, with something to count in its first register. -/
def loopProcessor (pc : Word) : Processor :=
  { Processor.new with regs := (Registers.zero.set 1 5).setPc pc, program := loopCode.toArray }

/-- The branch back and the jump ahead land where their labels stand, the latter past the last
instruction. -/
theorem assembleCode_resolves_loop :
    (∃ code, assembleCode (linesOf loopText) = .ok code) ∧
      (loopProcessor 1).step.2.regs.pc.toInt = (0 : Nat) ∧
      (loopProcessor 2).step.2.regs.pc.toInt = (3 : Nat) ∧
      ∀ live pc size, ((loopProcessor 2).step.2.tick live).1 ≠
        .stepped (.error (.illegalFetch pc size)) := by
  have hlines : linesOf loopText = [⟨1, "top SUBI 1  1  1".toList⟩, ⟨2, "BNEZ 1  top".toList⟩,
      ⟨3, "JMP end".toList⟩, ⟨4, "end".toList⟩] := by decide +kernel
  have hshapes : List.Forall₂ Line.HasShape (linesOf loopText) loopShapes := by
    rw [hlines]
    refine .cons (@Line.HasShape.labelled _ "top" "SUBI" _ _ ?_ ?_ ?_)
      (.cons (@Line.HasShape.plain _ "BNEZ" _ _ ?_ ?_)
        (.cons (@Line.HasShape.plain _ "JMP" _ _ ?_ ?_)
          (.cons (@Line.HasShape.lone _ "end" ?_ ?_) .nil))) <;>
    decide +kernel
  have hnonempty : ∀ line ∈ linesOf loopText, line.tokens ≠ [] := fun _ hline =>
    tokens_ne_nil hline
  obtain ⟨-, hresolves⟩ := assembleCode_resolves hnonempty (by rw [hlines]; decide)
  have hcode : assembleCode (linesOf loopText) = .ok loopCode := by decide +kernel
  obtain ⟨-, -, hbranches⟩ := hresolves loopCode loopShapes hcode hshapes
  -- the branch back is taken, and the jump goes past the last instruction
  have hback := hbranches (loopProcessor 1) 1 0 (.bnezi, ["1", "top"]) _ _ "top" rfl rfl rfl rfl
    (.taken .nonzero rfl (by decide)) rfl (by constructor <;> decide +kernel)
    ⟨[], _, _, rfl, rfl, rfl⟩
  have hend := hbranches (loopProcessor 2) 2 3 (.jmpi, ["end"]) _ _ "end" rfl rfl rfl rfl
    .jump rfl (by constructor <;> decide +kernel)
    ⟨loopShapes.take 3, .lone "end", [], rfl, rfl, rfl⟩
  exact ⟨⟨loopCode, hcode⟩, hback.1, hend.1, hend.2.2⟩

end JobText

end BatchMachine
