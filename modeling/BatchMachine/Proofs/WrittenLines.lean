import Mathlib.Data.List.Forall2
import Mathlib.Data.List.TakeWhile
import Mathlib.Tactic.IntervalCases
import BatchMachine.Proofs.Sections

/-!
# Lines as they are written

A text that is written line by line is read back as the words of its lines. A line may stand
between blanks and carry a comment; a line that is nothing else is not read at all.

* `Numeral.parse?_format`: a numeral denotes the word that it was written for.
* `IsWord`: what can stand between the blanks of a line.
* `Says`, `Line.Bears`: a line before and after it has been cleaned, and its words.
* `bears_linesOf`: the lines of a text that has been written line by line.
-/

namespace BatchMachine

/-! ## Numerals -/

namespace Numeral

variable {base n : Nat} {c : Char}

theorem digitValue?_digitChar (h : n < 16) : digitValue? n.digitChar = some n := by
  interval_cases n <;> decide

/-- Each character of a numeral is a digit of its `base`. -/
theorem exists_digit_of_mem (hbase : 1 < base) (h : c ∈ Nat.toDigits base n) :
    ∃ d < base, c = d.digitChar := by
  induction n using Nat.strong_induction_on with
  | _ n ih =>
    rw [Nat.toDigits_eq_if hbase] at h
    split at h
    case isTrue hlt => exact ⟨n, hlt, by simpa using h⟩
    case isFalse hle =>
      rcases List.mem_append.1 h with hmem | hlast
      · exact ih _ (Nat.div_lt_self (by omega) hbase) hmem
      · exact ⟨n % base, Nat.mod_lt _ (by omega), by simpa using hlast⟩

/-- `toDigits` gives digits that denote the number `n`. -/
theorem foldlM_toDigits (hbase : 1 < base) (hle : base ≤ 16) (n : Nat) :
    (Nat.toDigits base n).foldlM (pushDigit? base) 0 = some n := by
  induction n using Nat.strong_induction_on with
  | _ n ih =>
    rw [Nat.toDigits_eq_if hbase]
    split
    case isTrue hlt =>
      simp [pushDigit?, digitValue?_digitChar (Nat.lt_of_lt_of_le hlt hle), hlt]
    case isFalse hlarge =>
      have hdigit : n % base < base := Nat.mod_lt _ (by omega)
      have hvalue : n / base * base + n % base = n := by
        rw [Nat.mul_comm]
        exact Nat.div_add_mod n base
      rw [List.foldlM_append, ih _ (Nat.div_lt_self (by omega) hbase)]
      simp [pushDigit?, digitValue?_digitChar (Nat.lt_of_lt_of_le hdigit hle), hdigit, hvalue]

theorem magnitude?_toDigits (hbase : 1 < base) (hle : base ≤ 16) (n : Nat) :
    magnitude? base (Nat.toDigits base n) = some n := by
  have hnonempty : (Nat.toDigits base n).isEmpty = false := by
    simp [List.isEmpty_eq_false_iff]
  rw [magnitude?, hnonempty]
  exact foldlM_toDigits hbase hle n

/-- The numeral that `format` makes of the word `w` denotes `w`. -/
theorem parse?_format (hbase : 1 < base) (hle : base ≤ 16) (w : Word) :
    parse? base (format base w) = some w := by
  have hmagnitude := magnitude?_toDigits hbase hle w.toInt.natAbs
  unfold parse? format
  rw [String.toList_ofList]
  by_cases hnegative : w.toInt < 0
  · have hvalue : -(w.toInt.natAbs : Int) = w.toInt := by omega
    rw [if_pos hnegative]
    simp only [hmagnitude, Option.bind_some, signed?, if_true, hvalue, Word.ofInt?_toInt]
  · have hvalue : (w.toInt.natAbs : Int) = w.toInt := by omega
    rw [if_neg hnegative]
    -- no digit is taken for a sign
    split
    case h_1 digits hdigits =>
      obtain ⟨d, hd, hsign⟩ := exists_digit_of_mem (c := '-') hbase (by rw [hdigits]; simp)
      have : d < 16 := by omega
      interval_cases d <;> exact absurd hsign (by decide)
    case h_2 digits hdigits =>
      obtain ⟨d, hd, hsign⟩ := exists_digit_of_mem (c := '+') hbase (by rw [hdigits]; simp)
      have : d < 16 := by omega
      interval_cases d <;> exact absurd hsign (by decide)
    case h_3 =>
      simp only [hmagnitude, Option.bind_some, signed?, Bool.false_eq_true, if_false, hvalue,
        Word.ofInt?_toInt]

/-- The numeral that `format` makes of a word consists of digits and perhaps a minus sign. -/
theorem mem_format (hbase : 1 < base) {w : Word} (h : c ∈ (format base w).toList) :
    c = '-' ∨ ∃ d < base, c = d.digitChar := by
  rw [format, String.toList_ofList] at h
  split at h
  · rcases List.mem_cons.1 h with hsign | hmem
    · exact .inl hsign
    · exact .inr (exists_digit_of_mem hbase hmem)
  · exact .inr (exists_digit_of_mem hbase h)

end Numeral

namespace JobText

/-! ## Words -/

/-- `s` can stand as one word on a line: it is not empty and holds no blank, no percent sign and no
comma. -/
structure IsWord (s : String) : Prop where
  nonempty : s ≠ ""
  plain : ∀ c ∈ s.toList, Text.isBlank c = false ∧ c ≠ '%' ∧ c ≠ ','

instance (s : String) : Decidable (IsWord s) :=
  decidable_of_iff (s ≠ "" ∧ s.toList.all fun c => !Text.isBlank c && c != '%' && c != ',') <| by
    simp only [List.all_eq_true, Bool.and_eq_true, Bool.not_eq_true', bne_iff_ne, and_assoc]
    exact ⟨fun ⟨h, h'⟩ => ⟨h, h'⟩, fun ⟨h, h'⟩ => ⟨h, h'⟩⟩

/-- The words `ws` with single blanks between them. -/
def spaced (ws : List String) : List Char :=
  [' '].intercalate (ws.map String.toList)

variable {w : String} {ws : List String} {line : Line}

theorem IsWord.exists_cons (h : IsWord w) :
    ∃ c cs, w.toList = c :: cs ∧ Text.isBlank c = false := by
  cases hw : w.toList with
  | nil => exact absurd (String.toList_eq_nil_iff.1 hw) h.nonempty
  | cons c cs => exact ⟨c, cs, rfl, (h.plain c (by simp [hw])).1⟩

theorem spaced_cons (hws : ws ≠ []) : spaced (w :: ws) = w.toList ++ ' ' :: spaced ws := by
  obtain ⟨w', ws, rfl⟩ := List.exists_cons_of_ne_nil hws
  simp [spaced, List.intercalate_cons_cons]

/-- A character `c` between words is a blank, or it belongs to one of them. -/
theorem mem_spaced {c : Char} (h : c ∈ spaced ws) : c = ' ' ∨ ∃ w ∈ ws, c ∈ w.toList := by
  induction ws with
  | nil => simp [spaced] at h
  | cons w ws ih =>
    by_cases hws : ws = []
    · subst hws
      exact .inr ⟨w, by simp, by simpa [spaced] using h⟩
    · rw [spaced_cons hws, List.mem_append, List.mem_cons] at h
      rcases h with hword | hblank | hmem
      · exact .inr ⟨w, by simp, hword⟩
      · exact .inl hblank
      · rcases ih hmem with hblank | ⟨w', hw', hmem'⟩
        · exact .inl hblank
        · exact .inr ⟨w', List.mem_cons_of_mem _ hw', hmem'⟩

/-- `Text.words` gives back the words `ws` of the text that they make up. -/
theorem words_spaced (h : ∀ w ∈ ws, IsWord w) : Text.words (spaced ws) = ws.map String.toList := by
  induction ws with
  | nil => rfl
  | cons w ws ih =>
    have hw := h w (by simp)
    obtain ⟨c, cs, hcons, _⟩ := hw.exists_cons
    have hplain : ∀ c ∈ w.toList, Text.isBlank c = false := fun c hc => (hw.plain c hc).1
    have hkept : w.toList.isEmpty = false := by simp [hcons]
    by_cases hws : ws = []
    · subst hws
      rw [Text.words, show spaced [w] = w.toList by simp [spaced],
        List.splitOnP_eq_singleton hplain]
      simp [hkept]
    · -- the first word ends at the first blank
      have hrest := ih fun w' hw' => h w' (List.mem_cons_of_mem _ hw')
      rw [Text.words] at hrest ⊢
      rw [spaced_cons hws, List.splitOnP_append_cons_of_forall_mem hplain _ (by decide),
        List.filter_cons_of_pos (by simp [hkept]), hrest, List.map_cons]

/-- Between the words `ws` nothing starts a comment, and nothing is a comma or the end of a line. -/
theorem plain_of_mem_spaced {c : Char} (h : ∀ w ∈ ws, IsWord w) (hc : c ∈ spaced ws) :
    c ≠ '%' ∧ c ≠ ',' ∧ c ≠ '\n' := by
  rcases mem_spaced hc with rfl | ⟨w, hw, hmem⟩
  · decide
  · obtain ⟨hblank, hpercent, hcomma⟩ := (h w hw).plain c hmem
    refine ⟨hpercent, hcomma, ?_⟩
    rintro rfl
    exact absurd hblank (by decide)

/-- A line of words starts like its first word `w`. -/
theorem head?_spaced_cons (h : IsWord w) (ws : List String) :
    (spaced (w :: ws)).head? = w.toList.head? := by
  obtain ⟨c, cs, hcons, _⟩ := h.exists_cons
  by_cases hws : ws = []
  · subst hws
    simp [spaced]
  · simp [spaced_cons hws, hcons]

theorem spaced_ne_nil (h : ∀ w ∈ ws, IsWord w) (hws : ws ≠ []) : spaced ws ≠ [] := by
  obtain ⟨w, ws, rfl⟩ := List.exists_cons_of_ne_nil hws
  have hw := h w (by simp)
  obtain ⟨c, cs, hcons, _⟩ := hw.exists_cons
  have hhead := head?_spaced_cons hw ws
  rw [hcons] at hhead
  intro hnil
  simp [hnil] at hhead

/-- The words `ws` start with no blank. -/
theorem head?_spaced (h : ∀ w ∈ ws, IsWord w) :
    ∀ c ∈ (spaced ws).head?, Text.isBlank c = false := by
  cases ws with
  | nil => simp [spaced]
  | cons w ws =>
    have hw := h w (by simp)
    rw [head?_spaced_cons hw]
    exact fun c hc => (hw.plain c (List.mem_of_head? hc)).1

/-- The words `ws` end with no blank. -/
theorem getLast?_spaced (h : ∀ w ∈ ws, IsWord w) :
    ∀ c ∈ (spaced ws).getLast?, Text.isBlank c = false := by
  induction ws with
  | nil => simp [spaced]
  | cons w ws ih =>
    have hrest : ∀ w' ∈ ws, IsWord w' := fun w' hw' => h w' (List.mem_cons_of_mem _ hw')
    by_cases hws : ws = []
    · subst hws
      intro c hc
      have hmem : c ∈ w.toList := List.mem_of_getLast? (by simpa [spaced] using hc)
      exact ((h w (by simp)).plain c hmem).1
    · rw [spaced_cons hws, List.getLast?_append_of_ne_nil _ (by simp),
        List.getLast?_cons_of_ne_nil (spaced_ne_nil hrest hws)]
      exact ih hrest

/-- The numeral of `w` is a word, and does not start with a dollar sign. -/
theorem isWord_format {base : Nat} (hbase : 1 < base) (hle : base ≤ 16) (w : Word) :
    IsWord (Numeral.format base w) ∧ (Numeral.format base w).toList.head? ≠ some '$' := by
  have hdigit : ∀ c ∈ (Numeral.format base w).toList,
      Text.isBlank c = false ∧ c ≠ '%' ∧ c ≠ ',' ∧ c ≠ '$' := by
    intro c hc
    rcases Numeral.mem_format hbase hc with rfl | ⟨d, hd, rfl⟩
    · decide
    · have : d < 16 := Nat.lt_of_lt_of_le hd hle
      interval_cases d <;> decide
  refine ⟨⟨fun hempty => ?_, fun c hc => ?_⟩, fun hhead => ?_⟩
  · have hnil := congrArg String.toList hempty
    rw [Numeral.format, String.toList_ofList] at hnil
    split at hnil
    · simp at hnil
    · exact Nat.toDigits_ne_nil hnil
  · obtain ⟨hblank, hpercent, hcomma, _⟩ := hdigit c hc
    exact ⟨hblank, hpercent, hcomma⟩
  · exact (hdigit '$' (List.mem_of_head? hhead)).2.2.2 rfl

/-! ## Lines -/

/-- `Text.trim` takes away the blanks around `cs`, if `cs` has none at its ends. -/
theorem trim_blanks {before cs after : List Char} (hbefore : ∀ c ∈ before, Text.isBlank c = true)
    (hafter : ∀ c ∈ after, Text.isBlank c = true) (hhead : ∀ c ∈ cs.head?, Text.isBlank c = false)
    (hlast : ∀ c ∈ cs.getLast?, Text.isBlank c = false) :
    Text.trim (before ++ cs ++ after) = cs := by
  have hkeeps : ∀ ds : List Char, (∀ c ∈ ds.head?, Text.isBlank c = false) →
      ds.dropWhile Text.isBlank = ds := by
    intro ds hds
    cases ds with
    | nil => rfl
    | cons d ds => rw [List.dropWhile_cons_of_neg (by simp [hds d (by simp)])]
  unfold Text.trim
  rw [List.append_assoc, List.dropWhile_append_of_pos hbefore]
  cases cs with
  | nil =>
    have hnone : after.dropWhile Text.isBlank = [] := List.dropWhile_eq_nil_iff.2 hafter
    simp [hnone]
  | cons c cs =>
    rw [hkeeps (c :: cs ++ after) (by simpa using hhead), List.reverse_append,
      List.dropWhile_append_of_pos (by simpa using hafter),
      hkeeps _ (by simpa only [List.head?_reverse] using hlast), List.reverse_reverse]

/-- `cleaned` removes the `comment` of a line without commas, and the blanks around it. -/
theorem cleaned_append {cs comment : List Char} (h : ∀ c ∈ cs, c ≠ '%' ∧ c ≠ ',')
    (hcomment : ∀ c ∈ comment.head?, c = '%') : cleaned (cs ++ comment) = Text.trim cs := by
  have hkept : (cs ++ comment).takeWhile (· != '%') = cs := by
    rw [List.takeWhile_append_of_pos (fun c hc => by simpa using (h c hc).1)]
    cases comment with
    | nil => simp
    | cons c comment => simp [hcomment c (by simp)]
  have hcommas : cs.map (fun c => if c = ',' then ' ' else c) = cs := by
    conv_rhs => rw [← List.map_id cs]
    exact List.map_congr_left fun c hc => if_neg (h c hc).2
  rw [cleaned, hkept, hcommas]

/-- `cleaned` leaves the words `ws` of a line that holds them between blanks and before a
comment. -/
theorem cleaned_spaced {before after comment : List Char} (h : ∀ w ∈ ws, IsWord w)
    (hbefore : ∀ c ∈ before, c = ' ') (hafter : ∀ c ∈ after, c = ' ')
    (hcomment : ∀ c ∈ comment.head?, c = '%') :
    cleaned (before ++ spaced ws ++ after ++ comment) = spaced ws := by
  have hplain : ∀ c ∈ before ++ spaced ws ++ after, c ≠ '%' ∧ c ≠ ',' := by
    intro c hc
    rw [List.mem_append, List.mem_append] at hc
    rcases hc with (hc | hc) | hc
    · rw [hbefore c hc]
      decide
    · exact ⟨(plain_of_mem_spaced h hc).1, (plain_of_mem_spaced h hc).2.1⟩
    · rw [hafter c hc]
      decide
  rw [cleaned_append hplain hcomment]
  refine trim_blanks (fun c hc => ?_) (fun c hc => ?_) (head?_spaced h) (getLast?_spaced h)
  · rw [hbefore c hc]
    decide
  · rw [hafter c hc]
    decide

/-- The raw line `raw` says the words `ws`: they are what is left of it. -/
structure Says (raw : String) (ws : List String) : Prop where
  words : ∀ w ∈ ws, IsWord w
  single : '\n' ∉ raw.toList
  cleaned : cleaned raw.toList = spaced ws

/-- The line `line`, which has been read, holds the words `ws`. -/
structure Line.Bears (line : Line) (ws : List String) : Prop where
  words : ∀ w ∈ ws, IsWord w
  nonempty : ws ≠ []
  text : line.text = spaced ws

/-- A line says its words `ws` with blanks around them and a `comment` after them. -/
theorem says_of_toList {raw : String} (before after comment : List Char)
    (h : ∀ w ∈ ws, IsWord w) (hbefore : ∀ c ∈ before, c = ' ') (hafter : ∀ c ∈ after, c = ' ')
    (hcomment : ∀ c ∈ comment.head?, c = '%') (hsingle : '\n' ∉ comment)
    (hraw : raw.toList = before ++ spaced ws ++ after ++ comment) : Says raw ws := by
  refine ⟨h, ?_, ?_⟩
  · rw [hraw]
    simp only [List.mem_append, not_or]
    refine ⟨⟨⟨fun hmem => ?_, fun hmem => ?_⟩, fun hmem => ?_⟩, hsingle⟩
    · exact absurd (hbefore _ hmem) (by decide)
    · exact (plain_of_mem_spaced h hmem).2.2 rfl
    · exact absurd (hafter _ hmem) (by decide)
  · rw [hraw]
    exact cleaned_spaced h hbefore hafter hcomment

/-- The words `ws` with single blanks between them say themselves. -/
theorem says_intercalate (h : ∀ w ∈ ws, IsWord w) : Says (" ".intercalate ws) ws := by
  refine says_of_toList [] [] [] h (by simp) (by simp) (by simp) (by simp) ?_
  rw [String.toList_intercalate]
  simp [spaced]

/-- The lines of a text that has been written line by line, as `raws`, those without words left
out. -/
theorem bears_linesOf {raws : List String} {wss : List (List String)}
    (h : List.Forall₂ Says raws wss) :
    List.Forall₂ Line.Bears (linesOf (unlines raws)) (wss.filter fun ws => !ws.isEmpty) := by
  -- the lines are numbered from anywhere
  suffices hfrom : ∀ start, List.Forall₂ Line.Bears
      ((((unlines raws).toList.splitOn '\n').zipIdx start).filterMap fun entry =>
        let kept := cleaned entry.1
        if kept.isEmpty then none else some ⟨entry.2, kept⟩)
      (wss.filter fun ws => !ws.isEmpty) from hfrom 1
  induction h with
  | nil =>
    intro start
    exact .nil
  | @cons raw ws raws wss hraw _ ih =>
    intro start
    have hsplit : (unlines (raw :: raws)).toList.splitOn '\n' =
        raw.toList :: (unlines raws).toList.splitOn '\n' := by
      rw [unlines, List.map_cons, String.toList_join, List.flatMap_cons, String.toList_append,
        List.append_assoc, ← String.toList_join]
      exact List.splitOn_append_cons_self_of_not_mem hraw.single _
    rw [hsplit, List.zipIdx_cons]
    by_cases hws : ws = []
    · subst hws
      rw [List.filterMap_cons_none (by simp [hraw.cleaned, spaced])]
      exact ih (start + 1)
    · have hkept := spaced_ne_nil hraw.words hws
      rw [List.filterMap_cons_some (b := ⟨start, spaced ws⟩) (by simp [hraw.cleaned, hkept]),
        List.filter_cons_of_pos (by simpa using hws)]
      exact .cons ⟨hraw.words, hws, rfl⟩ (ih (start + 1))

namespace Line.Bears

/-- The words `ws` of `line` are read back. -/
theorem tokens (h : line.Bears ws) : line.tokens = ws := by
  rw [Line.tokens, h.text, words_spaced h.words]
  simp

/-- Whether `line` is a control line is told by its first word `w`. -/
theorem isControl (h : line.Bears (w :: ws)) : line.isControl = (w.toList.head? == some '$') := by
  rw [Line.isControl, h.text, head?_spaced_cons (h.words w (by simp))]

/-- The first word `w` of a control line is its keyword. -/
theorem hasKeyword (h : line.Bears (w :: ws)) (keyword : String) :
    line.hasKeyword keyword = (w.toList.head? == some '$' && w == keyword) := by
  rw [Line.hasKeyword, h.isControl, h.tokens]
  rfl

end Line.Bears

/-! ## Parts -/

variable {body rest : List Line} {job : Line}

/-- The lines `body` without a job and the lines `rest` from the next job on make one part. -/
theorem parts_append (hjob : job.isJob = true) (hbody : ∀ l ∈ body, l.isJob = false)
    (hrest : ∀ l ∈ rest.head?, l.isJob = true) :
    parts (job :: (body ++ rest)) = (job, body) :: parts rest := by
  have hkept : ∀ l ∈ body, (!l.isJob) = true := fun l hl => by simp [hbody l hl]
  have hstop : rest.takeWhile (fun l => !l.isJob) = [] := by
    cases rest with
    | nil => rfl
    | cons l rest => simp [hrest l (by simp)]
  have hskip : jobLines (body ++ rest) = jobLines rest := List.dropWhile_append_of_pos hkept
  rw [parts, if_pos hjob, List.takeWhile_append_of_pos hkept, hstop, List.append_nil,
    ← parts_jobLines (body ++ rest), hskip, parts_jobLines]

/-- The lines `body`, which are no control lines, end at the first one that is. -/
theorem plainLines_append (hbody : ∀ l ∈ body, l.isControl = false)
    (hrest : ∀ l ∈ rest.head?, l.isControl = true) :
    plainLines (body ++ rest) = body ∧ fromControl (body ++ rest) = rest := by
  have hkept : ∀ l ∈ body, (!l.isControl) = true := fun l hl => by simp [hbody l hl]
  rw [plainLines, fromControl, List.takeWhile_append_of_pos hkept,
    List.dropWhile_append_of_pos hkept]
  cases rest with
  | nil => simp
  | cons l rest => simp [hrest l (by simp)]

/-! ## Related lists -/

section Related

variable {α β : Type} {R S : α → β → Prop} {as : List α} {bs bs' : List β} {b : β}

/-- What is related to `bs ++ bs'` is made of two lists itself. -/
theorem forall₂_append_right (h : List.Forall₂ R as (bs ++ bs')) :
    ∃ l l', as = l ++ l' ∧ List.Forall₂ R l bs ∧ List.Forall₂ R l' bs' :=
  ⟨_, _, (List.take_append_drop bs.length as).symm, List.forall₂_take_append _ _ _ h,
    List.forall₂_drop_append _ _ _ h⟩

/-- Every member `b` of a list is related to one of the other. -/
theorem exists_of_forall₂ (h : List.Forall₂ R as bs) (hb : b ∈ bs) : ∃ a ∈ as, R a b := by
  induction h with
  | nil => simp at hb
  | @cons a b' as bs hab _ ih =>
    rcases List.mem_cons.1 hb with rfl | hmem
    · exact ⟨a, by simp, hab⟩
    · obtain ⟨a', ha', hrel⟩ := ih hmem
      exact ⟨a', List.mem_cons_of_mem _ ha', hrel⟩

/-- The relation `R` between lists may be changed member by member to `S`. -/
theorem forall₂_imp_of_mem (h : List.Forall₂ R as bs) (himp : ∀ a, ∀ b ∈ bs, R a b → S a b) :
    List.Forall₂ S as bs := by
  induction h with
  | nil => exact .nil
  | cons hab _ ih =>
    exact .cons (himp _ _ (by simp) hab) (ih fun a b hb => himp a b (List.mem_cons_of_mem _ hb))

end Related

/-! ## Dialects -/

/-- `ws` can stand on a line of their own without making it a control line. -/
structure IsPlain (ws : List String) : Prop where
  words : ∀ w ∈ ws, IsWord w
  first : ∃ w rest, ws = w :: rest ∧ w.toList.head? ≠ some '$'

theorem Line.Bears.isControl_eq_false (h : line.Bears ws) (hplain : IsPlain ws) :
    line.isControl = false := by
  obtain ⟨w, rest, rfl, hfirst⟩ := hplain.first
  rw [h.isControl]
  simpa using hfirst

/-- How a text spells instructions and input words. -/
structure Dialect where
  /-- The words of the line of an instruction. -/
  code : Instruction → List String
  /-- The word of the line of an input word. -/
  numeral : Word → String
  code_plain : ∀ i, IsPlain (code i)
  numeral_plain : ∀ w, IsPlain [numeral w]

namespace Dialect

variable {d : Dialect} {s : Segment} {ss : List Segment}

/-- The words of the lines of the segment `s`. -/
def spelling (d : Dialect) (s : Segment) : List (List String) :=
  ["$JOB", s.name] :: (s.code.map d.code ++ (inputLines d.numeral s.input?).map fun w => [w])

/-- Lines from the first control line of a part on that set out its input in the dialect `d`. -/
inductive SetsInput (d : Dialect) : List Line → Option (List Word) → Prop
  /-- There are none. -/
  | none : SetsInput d [] none
  /-- They start an input section. -/
  | some {run : Line} {lines : List Line} {input : List Word} : run.isRun = true →
      List.Forall₂ (fun line w => line.tokens = [d.numeral w]) (plainLines lines) input →
      SetsInput d (run :: lines) (some input)

/-- The part `part` of a text sets out the segment `s` in the dialect `d`. -/
structure SetsOut (d : Dialect) (part : Line × List Line) (s : Segment) : Prop where
  name : part.1.name? = some s.name
  code : List.Forall₂ (fun line i => line.tokens = d.code i) (plainLines part.2) s.code
  input : d.SetsInput (fromControl part.2) s.input?

/-- The lines `body`, if they bear what `as` is spelled as, are not control lines, and show the
spelling. -/
theorem bears_plain {α : Type} {spell : α → List String} {as : List α}
    (hplain : ∀ a, IsPlain (spell a)) (h : List.Forall₂ Line.Bears body (as.map spell)) :
    (∀ l ∈ body, l.isControl = false) ∧
      List.Forall₂ (fun line a => line.tokens = spell a) body as := by
  induction as generalizing body with
  | nil =>
    cases h
    exact ⟨by simp, .nil⟩
  | cons a as ih =>
    cases h with
    | cons hline h =>
      obtain ⟨hcontrol, htokens⟩ := ih h
      refine ⟨fun l hl => ?_, .cons hline.tokens htokens⟩
      rcases List.mem_cons.1 hl with rfl | hmem
      · exact hline.isControl_eq_false (hplain a)
      · exact hcontrol l hmem

/-- The lines `body` of an input section: they set it out, they start with a control line, and none
of them starts a job. -/
theorem setsInput_of_bears {input? : Option (List Word)}
    (h : List.Forall₂ Line.Bears body ((inputLines d.numeral input?).map fun w => [w])) :
    d.SetsInput body input? ∧ (∀ l ∈ body.head?, l.isControl = true) ∧
      ∀ l ∈ body, l.isJob = false := by
  cases input? with
  | none =>
    cases h
    exact ⟨.none, by simp, by simp⟩
  | some input =>
    rw [inputLines, List.cons_append, List.map_cons, List.map_append, List.map_map] at h
    cases h with
    | @cons run _ body _ hrun h =>
      obtain ⟨wordLines, last, rfl, hwords, hlast⟩ := forall₂_append_right h
      obtain ⟨hplain, htokens⟩ := bears_plain d.numeral_plain hwords
      -- the input words stop at the control line that ends the section
      cases hlast with
      | @cons fin _ rest _ hend hrest =>
        cases hrest
        have hcontrol : fin.isControl = true := by
          rw [hend.isControl]
          decide
        have hlines := (@plainLines_append _ [fin] hplain (by simpa using hcontrol)).1
        refine ⟨.some ?_ ?_, ?_, ?_⟩
        · rw [Line.isRun, hrun.hasKeyword]
          decide
        · rw [hlines]
          exact htokens
        · simp [hrun.isControl]
        · intro l hl
          rw [List.mem_cons, List.mem_append, List.mem_singleton] at hl
          rcases hl with rfl | hl | rfl
          · rw [Line.isJob, hrun.hasKeyword]
            decide
          · exact Line.hasKeyword_eq_false (hplain l hl) _
          · rw [Line.isJob, hend.hasKeyword]
            decide

/-- The parts of a text that has been written segment by segment set out the segments `ss`. -/
theorem setsOut_of_bears {lines : List Line}
    (h : List.Forall₂ Line.Bears lines (ss.flatMap d.spelling)) :
    List.Forall₂ d.SetsOut (parts lines) ss ∧ ∀ l ∈ lines.head?, l.isJob = true := by
  induction ss generalizing lines with
  | nil =>
    cases h
    exact ⟨.nil, by simp⟩
  | cons s ss ih =>
    rw [List.flatMap_cons, spelling, List.cons_append] at h
    cases h with
    | @cons job _ lines _ hjob h =>
      -- the part is a line for the job, lines of code and lines of input
      obtain ⟨body, rest, rfl, hbody, hrest⟩ := forall₂_append_right h
      obtain ⟨code, input, rfl, hcode, hinput⟩ := forall₂_append_right hbody
      obtain ⟨hplain, htokens⟩ := bears_plain d.code_plain hcode
      obtain ⟨hsets, hfirst, hnojob⟩ := setsInput_of_bears hinput
      obtain ⟨hparts, hnext⟩ := ih hrest
      obtain ⟨hcodeLines, hinputLines⟩ := plainLines_append hplain hfirst
      have hisJob : job.isJob = true := by
        rw [Line.isJob, hjob.hasKeyword]
        decide
      have hsame : parts (job :: (code ++ input ++ rest)) = (job, code ++ input) :: parts rest := by
        refine parts_append hisJob (fun l hl => ?_) hnext
        rcases List.mem_append.1 hl with hl | hl
        · exact Line.hasKeyword_eq_false (hplain l hl) _
        · exact hnojob l hl
      rw [hsame]
      refine ⟨.cons ⟨?_, ?_, ?_⟩ hparts, by simpa using hisJob⟩
      · rw [Line.name?, hjob.tokens]
        rfl
      · rw [hcodeLines]
        exact htokens
      · rw [hinputLines]
        exact hsets

/-- The lines of the segment `s` say its words when those of its code do. -/
theorem says_spelling {codeLines : List String} (hname : IsWord s.name)
    (hcode : List.Forall₂ Says codeLines (s.code.map d.code)) :
    List.Forall₂ Says (("$JOB " ++ s.name) :: codeLines ++ inputLines d.numeral s.input?)
      (d.spelling s) := by
  have hword : ∀ {w : String}, IsWord w → Says w [w] := fun {w} hw =>
    @says_intercalate [w] (by simpa using hw)
  have hjob : Says ("$JOB " ++ s.name) ["$JOB", s.name] := by
    have hsays : Says (" ".intercalate ["$JOB", s.name]) ["$JOB", s.name] :=
      says_intercalate (by simpa using ⟨by decide, hname⟩)
    simpa [String.intercalate_cons_cons] using hsays
  refine .cons hjob (List.rel_append hcode ?_)
  rw [List.forall₂_map_right_iff, List.forall₂_same]
  intro w hw
  refine hword ?_
  cases hinput : s.input? with
  | none => simp [hinput, inputLines] at hw
  | some input =>
    rw [hinput, inputLines, List.mem_append, List.mem_cons, List.mem_map,
      List.mem_singleton] at hw
    rcases hw with (rfl | ⟨w, _, rfl⟩) | rfl
    · decide
    · exact (d.numeral_plain w).words _ (by simp)
    · decide

/-- The segments `ss`, when they have been written after a `header` of comments, are set out by the
parts of the text. -/
theorem setsOut_unlines (header : List String) {write : Segment → List String}
    (hheader : ∀ raw ∈ header, Says raw [])
    (hwrite : ∀ s ∈ ss, List.Forall₂ Says (write s) (d.spelling s)) :
    List.Forall₂ d.SetsOut (parts (linesOf (unlines (header ++ ss.flatMap write)))) ss := by
  have hsegments : List.Forall₂ Says (ss.flatMap write) (ss.flatMap d.spelling) := by
    induction ss with
    | nil => exact .nil
    | cons s ss ih =>
      exact List.rel_append (hwrite s (by simp))
        (ih fun s' hs' => hwrite s' (List.mem_cons_of_mem _ hs'))
  have hcomments : List.Forall₂ Says header (header.map fun _ => []) := by
    rw [List.forall₂_map_right_iff, List.forall₂_same]
    exact hheader
  have hnone : (header.map fun _ => ([] : List String)).filter (fun ws => !ws.isEmpty) = [] := by
    simp
  -- only the header is left out when the lines are read
  have hall : (ss.flatMap d.spelling).filter (fun ws => !ws.isEmpty) = ss.flatMap d.spelling := by
    rw [List.filter_eq_self]
    intro ws hws
    obtain ⟨s, _, hmem⟩ := List.mem_flatMap.1 hws
    rw [spelling, List.mem_cons, List.mem_append, List.mem_map, List.mem_map] at hmem
    rcases hmem with rfl | ⟨i, _, rfl⟩ | ⟨w, _, rfl⟩
    · rfl
    · obtain ⟨w, rest, hfirst, _⟩ := (d.code_plain i).first
      rw [hfirst]
      rfl
    · rfl
  have hbears := bears_linesOf (List.rel_append hcomments hsegments)
  rw [List.filter_append, hnone, hall, List.nil_append] at hbears
  exact (setsOut_of_bears hbears).1

end Dialect

end JobText

end BatchMachine
