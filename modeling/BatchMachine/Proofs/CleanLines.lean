import BatchMachine.Proofs.Concatenation
import BatchMachine.Proofs.FailedSearches
import BatchMachine.Proofs.LabelResolution

/-!
# What the lines of a text hold

The lines of a job text that hold something keep the number of the raw line that they are what is
left of. They have a first word, so that nothing has to be checked before it is looked up, and when
they are written out again nothing more is removed from them.

* `rawLines`: the lines of a text as they stand.
* `mem_linesOf_iff`: which raw lines hold something.
* `Line.IsClean`, `Line.LiesIn`: what is left of a raw line.
* `collectByPlace_eq_some`: the words of a line can be looked up by their places.
* `Line.Faults`, `Reader.faults_of_answers`: what an error says about the words of its line.
* `linesOf_tidied`: the lines of a text that has been written out again.
* `linesOf_sound`: all of this, and that texts with the same words mean the same.
-/

namespace BatchMachine.JobText

variable {text : String} {line : Line} {raw : List Char} {e : ReadError}

/-! ## Raw lines -/

/-- The lines of a text as they stand. A line feed ends a line, and so does a carriage return with a
line feed. Behind the last of them there is a line only if it is not empty. -/
def rawLines : List Char → List (List Char)
  | [] => []
  | '\n' :: cs => [] :: rawLines cs
  | '\r' :: '\n' :: cs => [] :: rawLines cs
  | c :: cs =>
    match rawLines cs with
    | [] => [[c]]
    | raw :: raws => (c :: raw) :: raws

/-- What stands before a line feed, `piece`, is the raw line `raw`, perhaps with a carriage return
behind it. -/
def StandsFor (piece raw : List Char) : Prop :=
  piece = raw ∨ piece = raw ++ ['\r']

/-- The pieces of the text `cs` between line feeds are its raw lines and an empty piece at the
end. -/
theorem exists_splitOn_eq (cs : List Char) :
    ∃ pieces rest, cs.splitOn '\n' = pieces ++ rest ∧
      List.Forall₂ StandsFor pieces (rawLines cs) ∧ ∀ piece ∈ rest, piece = [] := by
  fun_induction rawLines cs with
  | case1 => exact ⟨[], [[]], rfl, .nil, by simp⟩
  | case2 cs ih =>
    obtain ⟨pieces, rest, hsplit, hpieces, hrest⟩ := ih
    refine ⟨[] :: pieces, rest, ?_, .cons (.inl rfl) hpieces, hrest⟩
    rw [List.splitOn_cons_eq_if_modifyHead, hsplit]
    rfl
  | case3 cs ih =>
    obtain ⟨pieces, rest, hsplit, hpieces, hrest⟩ := ih
    refine ⟨['\r'] :: pieces, rest, ?_, .cons (.inr rfl) hpieces, hrest⟩
    rw [List.splitOn_cons_eq_if_modifyHead, List.splitOn_cons_eq_if_modifyHead, hsplit]
    rfl
  | case4 c cs hfeed _ hlast ih =>
    obtain ⟨pieces, rest, hsplit, hpieces, hrest⟩ := ih
    have hchar : (c == '\n') = false := by simpa using hfeed
    rw [hlast, List.forall₂_nil_right_iff] at hpieces
    subst hpieces
    -- no line follows, so the character goes to the empty piece at the end
    obtain ⟨piece, rest, rfl⟩ : ∃ piece rest', rest = piece :: rest' :=
      List.exists_cons_of_ne_nil fun hnil => List.splitOn_ne_nil '\n' cs (by simp [hsplit, hnil])
    obtain rfl := hrest piece List.mem_cons_self
    refine ⟨[[c]], rest, ?_, .cons (.inl rfl) .nil, fun p hp => hrest p (List.mem_cons_of_mem _ hp)⟩
    rw [List.splitOn_cons_eq_if_modifyHead, hsplit, hchar]
    rfl
  | case5 c cs hfeed _ raw raws hraws ih =>
    obtain ⟨pieces, rest, hsplit, hpieces, hrest⟩ := ih
    have hchar : (c == '\n') = false := by simpa using hfeed
    rw [hraws] at hpieces
    cases hpieces with
    | @cons piece _ pieces _ hfirst hpieces =>
      refine ⟨(c :: piece) :: pieces, rest, ?_, .cons ?_ hpieces, hrest⟩
      · rw [List.splitOn_cons_eq_if_modifyHead, hsplit, hchar]
        rfl
      · rcases hfirst with rfl | rfl
        · exact .inl rfl
        · exact .inr rfl

/-- A carriage return is part of a line unless a line feed comes right after it. -/
example : rawLines "a\r\nb\rc\r\r\n\nd\r".toList =
    ["a".toList, "b\rc\r".toList, [], "d\r".toList] := by
  decide +kernel

/-- The raw line `raw` holds no line feed. -/
theorem not_mem_of_mem_rawLines {cs : List Char} (h : raw ∈ rawLines cs) : '\n' ∉ raw := by
  fun_induction rawLines cs generalizing raw with
  | case1 => simp at h
  | case2 cs ih =>
    rcases List.mem_cons.1 h with rfl | hmem
    · simp
    · exact ih hmem
  | case3 cs ih =>
    rcases List.mem_cons.1 h with rfl | hmem
    · simp
    · exact ih hmem
  | case4 c cs hfeed _ hlast ih =>
    obtain rfl := List.mem_singleton.1 h
    simpa [eq_comm] using hfeed
  | case5 c cs hfeed _ first raws hraws ih =>
    rw [hraws] at ih
    rcases List.mem_cons.1 h with rfl | hmem
    · have hfirst : '\n' ∉ first := ih List.mem_cons_self
      simpa [hfirst, eq_comm] using hfeed
    · exact ih (List.mem_cons_of_mem _ hmem)

/-! ## What is left of a raw line -/

/-- The text of `line`: it is not empty, no blanks stand around it, and it holds no percent sign, no
comma and no line feed. -/
structure Line.IsClean (line : Line) : Prop where
  nonempty : line.text ≠ []
  head : ∀ c ∈ line.text.head?, Text.isBlank c = false
  last : ∀ c ∈ line.text.getLast?, Text.isBlank c = false
  plain : ∀ c ∈ line.text, c ≠ '%' ∧ c ≠ ',' ∧ c ≠ '\n'

/-- The text of `line` stands in the raw line `raw` before the first percent sign, if each comma
there is taken for a blank, and only blanks stand around it. -/
def Line.LiesIn (line : Line) (raw : List Char) : Prop :=
  ∃ before after, ((raw.takeWhile (· != '%')).map fun c => if c = ',' then ' ' else c) =
      before ++ line.text ++ after ∧ ∀ c ∈ before ++ after, Text.isBlank c = true

theorem trim_eq (cs : List Char) :
    Text.trim cs = (cs.dropWhile Text.isBlank).rdropWhile Text.isBlank := rfl

theorem trim_eq_nil_iff {cs : List Char} :
    Text.trim cs = [] ↔ ∀ c ∈ cs, Text.isBlank c = true := by
  rw [trim_eq, List.rdropWhile_eq_nil_iff]
  constructor
  · intro h c hc
    rw [← List.takeWhile_append_dropWhile (p := Text.isBlank) (l := cs), List.mem_append] at hc
    rcases hc with hc | hc
    · exact List.mem_takeWhile_imp hc
    · exact h c hc
  · exact fun h c hc => h c ((List.dropWhile_sublist _).subset hc)

/-- `Text.trim` removes only blanks. -/
theorem exists_trim_eq (cs : List Char) :
    ∃ before after, cs = before ++ Text.trim cs ++ after ∧
      ∀ c ∈ before ++ after, Text.isBlank c = true := by
  set ds := cs.dropWhile Text.isBlank with hds
  have hfront : cs.takeWhile Text.isBlank ++ ds = cs := List.takeWhile_append_dropWhile
  have hback : ds = Text.trim cs ++ (ds.reverse.takeWhile Text.isBlank).reverse := by
    rw [Text.trim, ← hds, ← List.reverse_append, List.takeWhile_append_dropWhile,
      List.reverse_reverse]
  refine ⟨cs.takeWhile Text.isBlank, (ds.reverse.takeWhile Text.isBlank).reverse, ?_, ?_⟩
  · rw [List.append_assoc, ← hback, hfront]
  · intro c hc
    rcases List.mem_append.1 hc with hc | hc
    · exact List.mem_takeWhile_imp hc
    · exact List.mem_takeWhile_imp (List.mem_reverse.1 hc)

theorem trim_append_blank {cs : List Char} {c : Char} (h : Text.isBlank c = true) :
    Text.trim (cs ++ [c]) = Text.trim cs := by
  rw [trim_eq, trim_eq, List.dropWhile_append]
  split
  case isTrue hempty =>
    rw [List.isEmpty_iff] at hempty
    simp [hempty, h]
  case isFalse => exact List.rdropWhile_concat_pos _ _ _ h

/-- A carriage return at the end of `raw` is a blank like any other, or part of the comment. -/
theorem cleaned_append_return (raw : List Char) : cleaned (raw ++ ['\r']) = cleaned raw := by
  unfold cleaned
  rw [List.takeWhile_append]
  split
  case isTrue hall =>
    have hkept : raw.takeWhile (· != '%') = raw := (List.takeWhile_prefix _).eq_of_length hall
    rw [hkept, List.map_append]
    exact trim_append_blank (by decide)
  case isFalse => rfl

/-- Nothing is left of the raw line `raw` if it holds but blanks and commas before a comment. -/
theorem cleaned_eq_nil_iff :
    cleaned raw = [] ↔ ∀ c ∈ raw.takeWhile (· != '%'), Text.isBlank c = true ∨ c = ',' := by
  rw [cleaned, trim_eq_nil_iff, List.forall_mem_map]
  refine forall₂_congr fun c _ => ?_
  split
  case isTrue hcomma => simp [hcomma, Text.isBlank]
  case isFalse hcomma => simp [hcomma]

theorem isBlank_getLast?_cleaned {c : Char} (h : (cleaned raw).getLast? = some c) :
    Text.isBlank c = false := by
  rw [cleaned, trim_eq, List.rdropWhile, List.getLast?_reverse] at h
  have hhead := List.head?_dropWhile_not Text.isBlank
    (((raw.takeWhile (· != '%')).map fun c => if c = ',' then ' ' else c).dropWhile
      Text.isBlank).reverse
  rw [h] at hhead
  exact hhead

theorem ne_feed_of_mem_cleaned {c : Char} (hraw : '\n' ∉ raw) (h : c ∈ cleaned raw) :
    c ≠ '\n' := by
  obtain ⟨c', hc', rfl⟩ := exists_mem_of_mem_cleaned h
  have hmem : c' ∈ raw := (List.takeWhile_sublist _).subset hc'
  split
  · decide
  · exact fun hfeed => hraw (hfeed ▸ hmem)

/-- From the text of a clean `line` nothing more is removed. -/
theorem Line.IsClean.cleaned_eq (h : line.IsClean) : cleaned line.text = line.text := by
  have hplain : ∀ c ∈ line.text, c ≠ '%' ∧ c ≠ ',' := fun c hc =>
    ⟨(h.plain c hc).1, (h.plain c hc).2.1⟩
  calc cleaned line.text
      = cleaned (line.text ++ []) := by rw [List.append_nil]
    _ = Text.trim ([] ++ line.text ++ []) := by
        rw [cleaned_append hplain (by simp), List.nil_append, List.append_nil]
    _ = line.text := trim_blanks (by simp) (by simp) h.head h.last

/-! ## The lines that hold something -/

theorem line?_eq_some_iff {number : Nat} :
    line? raw number = some line ↔
      cleaned raw ≠ [] ∧ line.number = number ∧ line.text = cleaned raw := by
  unfold line?
  obtain ⟨n, cs⟩ := line
  split
  case isTrue hempty => simp [List.isEmpty_iff.1 hempty]
  case isFalse hempty =>
    rw [List.isEmpty_iff] at hempty
    simp [hempty, eq_comm]

/-- The carriage return behind a raw line does not change what `line?` makes of it. -/
theorem filterMap_line?_of_standsFor {pieces raws : List (List Char)}
    (h : List.Forall₂ StandsFor pieces raws) (k : Nat) :
    ((pieces.zipIdx k).filterMap fun r => line? r.1 r.2) =
      (raws.zipIdx k).filterMap fun r => line? r.1 r.2 := by
  induction h generalizing k with
  | nil => rfl
  | @cons piece raw pieces raws hfirst _ ih =>
    have hsame : line? piece k = line? raw k := by
      rcases hfirst with rfl | rfl
      · rfl
      · rw [line?, line?, cleaned_append_return]
    rw [List.zipIdx_cons, List.zipIdx_cons, List.filterMap_cons, List.filterMap_cons, hsame, ih]

/-- The lines of `text` are those of its raw lines that hold something. -/
theorem linesOf_eq_rawLines (text : String) :
    linesOf text = ((rawLines text.toList).zipIdx 1).filterMap fun r => line? r.1 r.2 := by
  obtain ⟨pieces, rest, hsplit, hpieces, hrest⟩ := exists_splitOn_eq text.toList
  have hnone : ∀ k, ((rest.zipIdx k).filterMap fun r => line? r.1 r.2) = [] := by
    intro k
    rw [List.filterMap_eq_nil_iff]
    intro r hr
    rw [hrest r.1 (List.fst_mem_of_mem_zipIdx hr)]
    rfl
  rw [linesOf_eq, hsplit, List.zipIdx_append, List.filterMap_append, hnone, List.append_nil,
    filterMap_line?_of_standsFor hpieces]

/-- A `line` of `text` is what is left of the raw line with its number. -/
theorem mem_linesOf_iff :
    line ∈ linesOf text ↔ 1 ≤ line.number ∧ ∃ raw,
      (rawLines text.toList)[line.number - 1]? = some raw ∧ cleaned raw ≠ [] ∧
        line.text = cleaned raw := by
  rw [linesOf_eq_rawLines, List.mem_filterMap]
  constructor
  · rintro ⟨⟨raw, number⟩, hmem, hkept⟩
    obtain ⟨hnonempty, rfl, htext⟩ := line?_eq_some_iff.1 hkept
    obtain ⟨hone, hraw⟩ := List.mk_mem_zipIdx_iff_le_and_getElem?_sub.1 hmem
    exact ⟨hone, raw, hraw, hnonempty, htext⟩
  · rintro ⟨hone, raw, hraw, hnonempty, htext⟩
    exact ⟨(raw, line.number), List.mk_mem_zipIdx_iff_le_and_getElem?_sub.2 ⟨hone, hraw⟩,
      line?_eq_some_iff.2 ⟨hnonempty, rfl, htext⟩⟩

/-- The lines of `text` stand in the order of their numbers. -/
theorem pairwise_linesOf (text : String) :
    (linesOf text).Pairwise fun l l' => l.number < l'.number := by
  have hnumbers : ((rawLines text.toList).zipIdx 1).Pairwise fun r r' => r.2 < r'.2 := by
    rw [← List.pairwise_map (f := Prod.snd) (R := (· < ·)), List.zipIdx_map_snd]
    exact List.pairwise_lt_range'
  rw [linesOf_eq_rawLines]
  refine hnumbers.filterMap _ fun r r' hlt l hl l' hl' => ?_
  rw [(line?_eq_some_iff.1 hl).2.1, (line?_eq_some_iff.1 hl').2.1]
  exact hlt

theorem isClean_of_mem (h : line ∈ linesOf text) : line.IsClean := by
  obtain ⟨number, cs⟩ := line
  obtain ⟨-, raw, hraw, hnonempty, hleft⟩ := mem_linesOf_iff.1 h
  obtain rfl : cs = cleaned raw := hleft
  have hfeed := not_mem_of_mem_rawLines (List.mem_of_getElem? hraw)
  exact {
    nonempty := hnonempty
    head := fun c => isBlank_head?_cleaned
    last := fun c => isBlank_getLast?_cleaned
    plain := fun c hc =>
      ⟨(ne_of_mem_cleaned hc).1, (ne_of_mem_cleaned hc).2, ne_feed_of_mem_cleaned hfeed hc⟩ }

theorem liesIn_of_text (h : line.text = cleaned raw) : line.LiesIn raw := by
  rw [Line.LiesIn, h]
  exact exists_trim_eq _

/-- The raw line `raw` is left out if it holds but blanks and commas before a comment. -/
theorem forall_number_ne_iff {i : Nat} (h : (rawLines text.toList)[i]? = some raw) :
    (∀ line ∈ linesOf text, line.number ≠ i + 1) ↔
      ∀ c ∈ raw.takeWhile (· != '%'), Text.isBlank c = true ∨ c = ',' := by
  rw [← cleaned_eq_nil_iff]
  constructor
  · intro hout
    by_contra hnonempty
    have hmem : (⟨i + 1, cleaned raw⟩ : Line) ∈ linesOf text :=
      mem_linesOf_iff.2 ⟨Nat.le_add_left 1 i, raw, h, hnonempty, rfl⟩
    exact hout _ hmem rfl
  · intro hempty line hline hnumber
    obtain ⟨-, raw', hraw', hnonempty, -⟩ := mem_linesOf_iff.1 hline
    rw [hnumber, Nat.add_sub_cancel, h] at hraw'
    obtain rfl := Option.some.inj hraw'
    exact hnonempty hempty

/-! ## First words -/

/-- What `line` holds as a line of assembly, when its words are looked up by their places. There is
no answer for a line without a first word. -/
def Line.shapeByPlace (line : Line) : Option Shape := do
  let first ← line.tokens[0]?
  match Opcode.ofMnemonic? first with
  | some opcode => return .plain opcode (line.tokens.drop 1)
  | none =>
    match line.tokens[1]? with
    | none => return .lone first
    | some second =>
      match Opcode.ofMnemonic? second with
      | some opcode => return .labelled first opcode (line.tokens.drop 2)
      | none => return .unknown first

/-- The labels and statements of lines of code, when words are looked up by their places. -/
def collectByPlace (labels : Labels) (index : Nat) :
    List Line → Option (Except AssemblyError (Labels × List Statement))
  | [] => some (.ok (labels, []))
  | line :: lines => do
    let s ← line.shapeByPlace
    match labels.defineFor s index with
    | .error e => return .error e
    | .ok labels =>
      match s with
      | .plain opcode operands | .labelled _ opcode operands =>
        let code ← collectByPlace labels (index + 1) lines
        return code.map fun code => (code.1, ⟨line.number, opcode, operands⟩ :: code.2)
      | .lone _ => collectByPlace labels index lines
      | .unknown label => return .error (.unknownMnemonic line.number label)

theorem Line.shapeByPlace_eq_some {first : String} {others : List String}
    (h : line.tokens = first :: others) : line.shapeByPlace = some (shape first others) := by
  unfold shapeByPlace shape
  rw [h]
  simp only [List.getElem?_cons_zero, bind, Option.bind]
  cases Opcode.ofMnemonic? first with
  | some opcode => rfl
  | none =>
    cases others with
    | nil => rfl
    | cons second operands =>
      simp only [List.getElem?_cons_succ, List.getElem?_cons_zero]
      cases Opcode.ofMnemonic? second <;> rfl

/-- If `lines` have words there is an answer, and it is the one that `collect` gives. -/
theorem collectByPlace_eq_some {lines : List Line} (h : ∀ line ∈ lines, line.tokens ≠ [])
    (labels : Labels) (index : Nat) :
    collectByPlace labels index lines = some (collect labels index lines) := by
  induction lines generalizing labels index with
  | nil => rfl
  | cons line lines ih =>
    have hrest := ih fun l hl => h l (List.mem_cons_of_mem _ hl)
    obtain ⟨first, others, htokens⟩ := List.exists_cons_of_ne_nil (h line List.mem_cons_self)
    rw [collectByPlace, collect, Line.shapeByPlace_eq_some htokens, htokens]
    simp only [bind, Option.bind]
    cases labels.defineFor (shape first others) index with
    | error e => rfl
    | ok labels =>
      simp only [hrest, Except.bind]
      cases shape first others with
      | lone label => rfl
      | unknown label => rfl
      | plain opcode operands => cases collect labels (index + 1) lines <;> rfl
      | labelled label opcode operands => cases collect labels (index + 1) lines <;> rfl

/-- What an error of a reader says of the words of `line`. Only a line that has a first word can be
at fault, and if its words are not the fields of an instruction, the first one is a code. -/
inductive Line.Faults (line : Line) : ReadError → Prop
  | badNumber {token : String} (hmem : token ∈ line.tokens)
      (hparse : Numeral.parse? 16 token = none) : Faults line (.badNumber line.number token)
  | badInstruction {first : String} {others : List String} {code : Word} {operands : List Word}
      {cause : FieldError} (htokens : line.tokens = first :: others)
      (hcode : Numeral.parse? 16 first = some code)
      (hfields : Instruction.ofFields (code :: operands) = .error cause) :
      Faults line (.badInstruction line.number cause)
  | badInput {first : String} {others : List String} (htokens : line.tokens = first :: others)
      (hword : Numeral.parse? 16 first = none ∨ others ≠ []) : Faults line (.badInput line.number)
  | missingJobName {first : String} (htokens : line.tokens = [first]) :
      Faults line (.missingJobName line.number)

namespace Line

theorem faults_of_instruction (hwords : line.tokens ≠ []) (h : line.instruction = .error e) :
    line.Faults e := by
  obtain ⟨first, others, htokens⟩ := List.exists_cons_of_ne_nil hwords
  rw [← codeOf_eq_instruction, codeOf] at h
  cases hbad : line.tokens.find? fun token => (Numeral.parse? 16 token).isNone with
  | some token =>
    rw [hbad] at h
    obtain rfl := Except.error.inj h
    exact .badNumber (List.mem_of_find?_eq_some hbad)
      (by simpa using List.find?_some hbad)
  | none =>
    rw [hbad] at h
    have hall := List.find?_eq_none.1 hbad
    -- the first word is a numeral like the others, so the fields are not empty
    obtain ⟨code, hcode⟩ : ∃ code, Numeral.parse? 16 first = some code := by
      have hfirst := hall first (by simp [htokens])
      exact Option.ne_none_iff_exists'.1 (by simpa using hfirst)
    rw [htokens, List.filterMap_cons_some hcode] at h
    simp only at h
    cases hfields : Instruction.ofFields (code :: others.filterMap (Numeral.parse? 16)) with
    | ok i =>
      rw [hfields] at h
      simp [Except.mapError] at h
    | error cause =>
      rw [hfields] at h
      obtain rfl := Except.error.inj h
      exact .badInstruction htokens hcode hfields

theorem faults_of_input (hwords : line.tokens ≠ []) (h : line.input = .error e) :
    line.Faults e := by
  obtain ⟨first, others, htokens⟩ := List.exists_cons_of_ne_nil hwords
  unfold input onlyWord? at h
  rw [htokens] at h
  cases others with
  | nil =>
    simp only at h
    cases hparse : Numeral.parse? 16 first with
    | some w => simp [hparse] at h
    | none =>
      rw [hparse] at h
      obtain rfl := Except.error.inj h
      exact .badInput htokens (.inl hparse)
  | cons second others =>
    obtain rfl := Except.error.inj h
    exact .badInput htokens (.inr (List.cons_ne_nil _ _))

theorem faults_of_name? (hwords : line.tokens ≠ []) (h : line.name? = none) :
    line.Faults (.missingJobName line.number) := by
  obtain ⟨first, others, htokens⟩ := List.exists_cons_of_ne_nil hwords
  cases others with
  | nil => exact .missingJobName htokens
  | cons second others => simp [name?, htokens] at h

end Line

namespace Reader

variable {α : Type} {r : Reader}

/-- All lines that `r` has not passed have words. -/
def HasWords (r : Reader) : Prop :=
  ∀ line ∈ r.rest, line.tokens ≠ []

/-- `reading` takes lines of `r` and adds none, and its error is the fault of one of them. -/
structure Takes (r : Reader) (reading : Reading α) : Prop where
  rest : reading.2.rest ⊆ r.rest
  faults : ∀ e, reading.1 = .error e → ∃ line ∈ r.rest, line.Faults e

theorem takes_seekCode (h : r.HasWords) : r.Takes r.seekCode := by
  have hsub : r.rest.dropWhile (fun l => !l.isJob) ⊆ r.rest := (List.dropWhile_sublist _).subset
  unfold seekCode
  split
  case isTrue => exact ⟨List.Subset.refl _, by simp⟩
  case isFalse =>
    split
    case h_1 => exact ⟨by simp, by simp⟩
    case h_2 line rest hseek =>
      -- the line that starts the job is passed even if it gives no name
      rw [hseek] at hsub
      have hline : line ∈ r.rest := hsub List.mem_cons_self
      have hrest : rest ⊆ r.rest := List.subset_of_cons_subset hsub
      split
      case h_1 => exact ⟨hrest, by simp⟩
      case h_2 hname =>
        refine ⟨hrest, fun e he => ?_⟩
        obtain rfl := Except.error.inj he
        exact ⟨line, hline, Line.faults_of_name? (h line hline) hname⟩

theorem takes_seekInput (r : Reader) : r.Takes r.seekInput := by
  have hsub : r.rest.dropWhile (fun l => !l.isRun && !l.isJob) ⊆ r.rest :=
    (List.dropWhile_sublist _).subset
  unfold seekInput
  split
  case isTrue => exact ⟨List.Subset.refl _, by simp⟩
  case isFalse =>
    split
    case h_1 => exact ⟨by simp, by simp⟩
    case h_2 line rest hseek =>
      rw [hseek] at hsub
      split
      case isTrue => exact ⟨List.subset_of_cons_subset hsub, by simp⟩
      case isFalse => exact ⟨hsub, by simp⟩

theorem takes_readLine {decode : Line → Except ReadError α} (h : r.HasWords) (after : Part)
    (hdecode : ∀ line e, line.tokens ≠ [] → decode line = .error e → line.Faults e) :
    r.Takes (r.readLine after decode) := by
  unfold readLine takeLine
  cases hrest : r.rest with
  | nil => exact ⟨by simp [hrest], by simp⟩
  | cons line rest =>
    cases hcontrol : line.isControl with
    | true =>
      simp only [hcontrol, if_true]
      exact ⟨by simp [hrest], by simp⟩
    | false =>
      simp only [hcontrol, Bool.false_eq_true, if_false]
      have hline : line ∈ r.rest := hrest ▸ List.mem_cons_self
      cases hdecoded : decode line with
      | ok a => exact ⟨by simp [hrest], by simp⟩
      | error e =>
        refine ⟨by simp [fail, hrest], fun e' he' => ?_⟩
        obtain rfl := Except.error.inj he'
        exact ⟨line, hline, hdecode line e (h line hline) hdecoded⟩

theorem takes_enter {advance : Reader → Reading Bool} {read : Reader → Reading (Option α)}
    (h : r.HasWords) (hadvance : r.Takes (advance r))
    (hread : ∀ r', HasWords r' → r'.Takes (read r')) : r.Takes (enter advance read r) := by
  unfold enter
  rcases hanswer : advance r with ⟨answer, r'⟩
  rw [hanswer] at hadvance
  cases answer with
  | error e => exact ⟨hadvance.rest, fun e' he' => hadvance.faults e' (by simpa using he')⟩
  | ok found =>
    cases found with
    | false => exact ⟨hadvance.rest, by simp⟩
    | true =>
      have hnext := hread r' fun line hline => h line (hadvance.rest hline)
      refine ⟨List.Subset.trans hnext.rest hadvance.rest, fun e he => ?_⟩
      obtain ⟨line, hline, hfaults⟩ := hnext.faults e he
      exact ⟨line, hadvance.rest hline, hfaults⟩

theorem takes_readInstruction (h : r.HasWords) : r.Takes r.readInstruction :=
  takes_readLine h _ fun _ _ => Line.faults_of_instruction

theorem takes_readInput (h : r.HasWords) : r.Takes r.readInput :=
  takes_readLine h _ fun _ _ => Line.faults_of_input

theorem takes_fetchInstruction (h : r.HasWords) : r.Takes r.fetchInstruction := by
  unfold fetchInstruction
  split
  case h_1 => exact takes_readInstruction h
  case h_2 => exact takes_enter h (takes_seekCode h) fun _ => takes_readInstruction
  case h_3 => exact ⟨List.Subset.refl _, by simp⟩

theorem takes_fetchInput (h : r.HasWords) : r.Takes r.fetchInput := by
  unfold fetchInput
  split
  case h_1 => exact takes_readInput h
  case h_2 => exact ⟨List.Subset.refl _, by simp⟩
  case h_3 => exact takes_enter h (takes_seekInput r) fun _ => takes_readInput

theorem Takes.map {β : Type} {reading : Reading α} (h : r.Takes reading) (f : α → β) :
    r.Takes ((reading.1.map f, reading.2) : Reading β) := by
  refine ⟨h.rest, fun e he => h.faults e ?_⟩
  cases hanswer : reading.1 with
  | ok a => simp [hanswer, Except.map] at he
  | error e' => simpa [hanswer, Except.map] using he

theorem takes_perform (h : r.HasWords) (call : Call) : r.Takes (r.perform call) := by
  cases call with
  | seekCode => exact (takes_seekCode h).map _
  | seekInput => exact (takes_seekInput r).map _
  | fetchInstruction => exact (takes_fetchInstruction h).map _
  | fetchInput => exact (takes_fetchInput h).map _

/-- In whatever order `r` is called, each error `e` of it is the fault of a line that it had
before. -/
theorem faults_of_answers (h : r.HasWords) {calls : List Call}
    (he : .error e ∈ r.answers calls) : ∃ line ∈ r.rest, line.Faults e := by
  induction calls generalizing r with
  | nil => simp [answers] at he
  | cons call calls ih =>
    have htakes := takes_perform h call
    rw [answers, List.mem_cons] at he
    rcases he with hfirst | hlater
    · exact htakes.faults e hfirst.symm
    · obtain ⟨line, hline, hfaults⟩ := ih (fun line hline => h line (htakes.rest hline)) hlater
      exact ⟨line, htakes.rest hline, hfaults⟩

end Reader

/-! ## Written out again -/

/-- The lines of `text` that hold something, written out one after the other. -/
def tidied (text : String) : String :=
  "\n".intercalate ((linesOf text).map fun line => String.ofList line.text)

/-- From clean `lines` that are written out nothing is left out, and they are numbered one by
one. -/
theorem linesOf_intercalate {lines : List Line} (h : ∀ line ∈ lines, line.IsClean) :
    linesOf ("\n".intercalate (lines.map fun line => String.ofList line.text)) =
      (lines.zipIdx 1).map fun l => ⟨l.2, l.1.text⟩ := by
  by_cases hempty : lines = []
  · subst hempty
    rfl
  · -- no line holds a line feed, so splitting undoes the joining
    have hsplit : ("\n".intercalate (lines.map fun line => String.ofList line.text)).toList.splitOn
        '\n' = lines.map Line.text := by
      rw [String.toList_intercalate, List.map_map]
      simp only [Function.comp_def, String.toList_ofList]
      refine List.splitOn_intercalate '\n' ?_ (by simpa using hempty)
      intro cs hcs hfeed
      obtain ⟨line, hline, rfl⟩ := List.mem_map.1 hcs
      exact ((h line hline).plain _ hfeed).2.2 rfl
    rw [linesOf_eq, hsplit, List.zipIdx_map, List.filterMap_map, ← List.filterMap_eq_map]
    refine List.filterMap_congr fun l hl => ?_
    have hclean := h l.1 (List.fst_mem_of_mem_zipIdx hl)
    exact line?_eq_some_iff.2 ⟨by simpa [hclean.cleaned_eq] using hclean.nonempty, rfl,
      by simp [hclean.cleaned_eq]⟩

theorem linesOf_tidied (text : String) :
    (linesOf (tidied text)).map Line.text = (linesOf text).map Line.text := by
  rw [tidied, linesOf_intercalate fun _ => isClean_of_mem, List.map_map]
  conv_rhs => rw [← List.zipIdx_map_fst 1 (linesOf text), List.map_map]
  rfl

/-! ## Texts with the same words -/

/-- If the texts `s` and `t` have the same words line by line, they have the same lines under other
numbers. -/
theorem exists_renumbered {s t : String}
    (h : (linesOf s).map Line.tokens = (linesOf t).map Line.tokens) :
    ∃ f, (linesOf t).map Line.number = (linesOf s).map (fun line => f line.number) ∧
      List.Forall₂ (Line.Renumbered f) (linesOf s) (linesOf t) := by
  have hnodup : ((linesOf s).map Line.number).Nodup :=
    (List.pairwise_map.2 (pairwise_linesOf s)).imp Nat.ne_of_lt
  -- no number occurs twice, so the new number of a line is a function of the old one
  obtain ⟨f, hf⟩ := @exists_map_eq _ ((linesOf t).map Line.number) hnodup
    (by simpa using (congrArg List.length h).symm)
  rw [List.map_map] at hf
  -- whether a line is a control line can be told from its words
  have hcontrol : ∀ text, (linesOf text).map Line.isControl =
      ((linesOf text).map Line.tokens).map fun tokens =>
        (tokens.head?.bind fun word => word.toList.head?) == some '$' := by
    intro text
    rw [List.map_map]
    exact List.map_congr_left fun line hline => isControl_of_mem hline (tokens_ne_nil hline)
  exact ⟨f, hf, renumbered_of_map hf h.symm (by rw [hcontrol, hcontrol, h])⟩

/-- What is left of the lines of a text. The lines stand in the order of their numbers, each lies in
the raw line with its number, and none is empty, stands between blanks or holds a percent sign, a
comma or a line feed. So each has a first word, which an assembler can look up by its place and
which is there when a reader finds fault with the line. The raw lines that are left out hold but
blanks and commas before a comment, and a text that is written out again has the same lines. Texts
that have the same words line by line assemble to the same object code and read as the same
segments, and an error in one of them is the same error on the corresponding line of the other. -/
theorem linesOf_sound :
    (∀ text : String,
      (linesOf text).Pairwise (fun l l' => l.number < l'.number) ∧
      (∀ line ∈ linesOf text, 1 ≤ line.number ∧
        (∃ raw, (rawLines text.toList)[line.number - 1]? = some raw ∧ line.LiesIn raw) ∧
        line.IsClean ∧ line.tokens ≠ []) ∧
      (∀ lines, lines ⊆ linesOf text → ∀ labels index,
        collectByPlace labels index lines = some (collect labels index lines)) ∧
      (∀ origin calls e, .error e ∈ (Reader.ofText origin text).answers calls →
        ∃ line ∈ linesOf text, line.Faults e) ∧
      (∀ i raw, (rawLines text.toList)[i]? = some raw →
        ((∀ line ∈ linesOf text, line.number ≠ i + 1) ↔
          ∀ c ∈ raw.takeWhile (· != '%'), Text.isBlank c = true ∨ c = ',')) ∧
      (linesOf (tidied text)).map Line.text = (linesOf text).map Line.text) ∧
    ∀ s t : String, (linesOf s).map Line.tokens = (linesOf t).map Line.tokens →
      (∀ object, assembleText s = .ok object ↔ assembleText t = .ok object) ∧
      (∀ origin ss, (Reader.ofText origin s).segments.1 = .ok ss ↔
        (Reader.ofText origin t).segments.1 = .ok ss) ∧
      ∃ f, (linesOf t).map Line.number = (linesOf s).map (fun line => f line.number) ∧
        assemble t = (assemble s).mapError (AssemblyError.renumber f) ∧
        ∀ origin, (Reader.ofText origin t).segments.1 =
          (Reader.ofText origin s).segments.1.mapError (ReadError.renumber f) := by
  refine ⟨fun text => ?_, fun s t hwords => ?_⟩
  · have hfirst : ∀ line ∈ linesOf text, line.tokens ≠ [] := fun _ => tokens_ne_nil
    refine ⟨pairwise_linesOf text, fun line hline => ?_,
      fun lines hlines => collectByPlace_eq_some fun line hline => hfirst line (hlines hline),
      fun origin _ _ => Reader.faults_of_answers (r := Reader.ofText origin text) hfirst,
      fun i raw => forall_number_ne_iff, linesOf_tidied text⟩
    obtain ⟨hone, raw, hraw, -, htext⟩ := mem_linesOf_iff.1 hline
    exact ⟨hone, ⟨raw, hraw, liesIn_of_text htext⟩, isClean_of_mem hline, hfirst line hline⟩
  · -- lines with the same words differ in their numbers at most
    obtain ⟨f, hnumbers, hlines⟩ := exists_renumbered hwords
    have hassemble : assemble t = (assemble s).mapError (AssemblyError.renumber f) :=
      assembleParts_renumbered hlines
    have hread : ∀ origin, (Reader.ofText origin t).segments.1 =
        (Reader.ofText origin s).segments.1.mapError (ReadError.renumber f) := by
      intro origin
      rw [segments_eq_mapM, segments_eq_mapM, segmentsOf_renumbered hlines]
    refine ⟨fun object => ?_, fun origin ss => ?_, f, hnumbers, hassemble, hread⟩
    · rw [assembleText_eq_ok_iff, assembleText_eq_ok_iff, hassemble]
      simp only [mapError_eq_ok_iff]
    · rw [hread, mapError_eq_ok_iff]

/-- A text with a comma before a control line, carriage returns, wide blanks, and lines that hold
but blanks, commas and comments. -/
def crowdedText : String :=
  "% header\r\n,$JOB a\r\n\u3000TRAP putw,1 % say\r\n , \t%,\n$RUN\u00a0% input\n7\r\n,$END"

/-- The words of that text, and nothing else. -/
def spareText : String :=
  "$JOB a\nTRAP putw 1\n$RUN\n7\n$END\n"

/-- The fourth raw line is left out, what a reader finds on the third has a first word, and both
texts assemble to the same object code. -/
theorem linesOf_sound_crowded :
    linesOf crowdedText =
      [⟨2, "$JOB a".toList⟩, ⟨3, "TRAP putw 1".toList⟩, ⟨5, "$RUN".toList⟩, ⟨6, "7".toList⟩,
        ⟨7, "$END".toList⟩] ∧
    (∀ line ∈ linesOf crowdedText, line.IsClean ∧ line.tokens ≠ []) ∧
    collectByPlace [] 0 [⟨3, "TRAP putw 1".toList⟩] =
      some (.ok ([], [⟨3, .trap, ["putw", "1"]⟩])) ∧
    ((Reader.ofText "" crowdedText).answers [.fetchInstruction] =
        [.error (.badNumber 3 "TRAP")] ∧
      ∃ line ∈ linesOf crowdedText, line.Faults (.badNumber 3 "TRAP")) ∧
    ((rawLines crowdedText.toList)[3]? = some " , \t%,".toList ∧
      ((∀ line ∈ linesOf crowdedText, line.number ≠ 4) ↔
        ∀ c ∈ (" , \t%,".toList).takeWhile (· != '%'), Text.isBlank c = true ∨ c = ',')) ∧
    (linesOf (tidied crowdedText)).map Line.text = (linesOf crowdedText).map Line.text ∧
    (linesOf crowdedText).map Line.tokens = (linesOf spareText).map Line.tokens ∧
    assembleText crowdedText = .ok "$JOB a\nf 3 1\n$RUN\n7\n$END\n" ∧
    ∃ f, (linesOf spareText).map Line.number =
        (linesOf crowdedText).map (fun line => f line.number) ∧
      ∀ origin, (Reader.ofText origin spareText).segments.1 =
        (Reader.ofText origin crowdedText).segments.1.mapError (ReadError.renumber f) := by
  obtain ⟨hlines, hsame⟩ := linesOf_sound
  obtain ⟨-, hclean, hplaces, hfaults, hout, htidied⟩ := hlines crowdedText
  have hcrowded : linesOf crowdedText =
      [⟨2, "$JOB a".toList⟩, ⟨3, "TRAP putw 1".toList⟩, ⟨5, "$RUN".toList⟩, ⟨6, "7".toList⟩,
        ⟨7, "$END".toList⟩] := by
    decide +kernel
  have hanswers : (Reader.ofText "" crowdedText).answers [.fetchInstruction] =
      [.error (.badNumber 3 "TRAP")] := by
    decide +kernel
  have hraw : (rawLines crowdedText.toList)[3]? = some " , \t%,".toList := by
    decide +kernel
  have hwords : (linesOf crowdedText).map Line.tokens = (linesOf spareText).map Line.tokens := by
    decide +kernel
  have hspare : assembleText spareText = .ok "$JOB a\nf 3 1\n$RUN\n7\n$END\n" := by
    decide +kernel
  have hcode : collect [] 0 [⟨3, "TRAP putw 1".toList⟩] =
      .ok ([], [⟨3, .trap, ["putw", "1"]⟩]) := by
    decide +kernel
  obtain ⟨hobject, -, f, hnumbers, -, hread⟩ := hsame _ _ hwords
  refine ⟨hcrowded, fun line hline => (hclean line hline).2.2, ?_,
    ⟨hanswers, hfaults "" _ _ (hanswers ▸ List.mem_singleton_self _)⟩, ⟨hraw, hout 3 _ hraw⟩,
    htidied, hwords, (hobject _).2 hspare, f, hnumbers, hread⟩
  rw [hplaces _ (by simp [hcrowded]), hcode]

end BatchMachine.JobText
