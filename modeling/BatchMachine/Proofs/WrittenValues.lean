import Mathlib.Data.List.Basic
import Mathlib.Tactic.IntervalCases
import BatchMachine.Json.Value
import BatchMachine.Json.Written

/-!
# Written values are read back

Of what a value can be written as, this is the part that the small records of the machine need:
integers, strings without escapes, lists of integers and objects. Each reads as the value that it
was written for, whatever stands after it.

* `Json.value?_toString`: an integer.
* `Json.value?_quote`: a string.
* `Json.value?_numerals`: a list of integers.
* `Json.members?_cons`, `Json.value?_members`: an object, member by member.
-/

namespace BatchMachine.Json

variable {c : Char} {t rest : List Char} {n fuel : Nat}

/-! ## Numbers as they are written -/

/-- `c` stands after a number in a list. -/
def IsNumberEnd (c : Char) : Prop := c = ',' ∨ c = ']'

theorem digits_append {ds : List Char} (hds : ∀ d ∈ ds, d.isDigit = true)
    (hc : IsNumberEnd c) : digits (ds ++ c :: t) = (ds, c :: t) := by
  have hstop : c.isDigit = false := by
    rcases hc with rfl | rfl <;> decide
  rw [digits, List.takeWhile_append_of_pos hds, List.dropWhile_append_of_pos hds]
  simp [hstop]

theorem decimal_toDigits (n : Nat) : decimal (Nat.toDigits 10 n) = n := by
  have hvalue := Nat.ofDigitChars_toDigits (b := 10) (n := n) (by decide) (by decide)
  simpa only [decimal, Nat.ofDigitChars, Nat.mul_comm] using hvalue

/-- The digits of `n` begin with a zero only if `n` is zero. -/
theorem head?_toDigits (hn : n ≠ 0) : (Nat.toDigits 10 n).head? ≠ some '0' := by
  induction n using Nat.strong_induction_on with
  | _ n ih =>
    rw [Nat.toDigits_eq_if (by decide)]
    split
    case isTrue hlt =>
      interval_cases n <;> first | exact absurd rfl hn | decide
    case isFalse hlarge =>
      have hne : n / 10 ≠ 0 := by omega
      rw [List.head?_append_of_ne_nil _ (by simp)]
      exact ih _ (by omega) hne

theorem number?_toDigits (negative : Bool) (n : Nat) (hc : IsNumberEnd c)
    (hsign : negative = true → n ≠ 0) :
    number? negative (Nat.toDigits 10 n ++ c :: t) =
      some (.number (some (if negative then -(n : Int) else n)), c :: t) := by
  have hdigits := digits_append (t := t) (fun d (hd : d ∈ Nat.toDigits 10 n) =>
    Nat.isDigit_of_mem_toDigits (by decide) (by decide) hd) hc
  have htail : numberTail? (c :: t) = some (true, c :: t) := by
    rcases hc with rfl | rfl <;> rfl
  have hzero : ((Nat.toDigits 10 n).isEmpty ||
      ((Nat.toDigits 10 n).head? == some '0' && (Nat.toDigits 10 n).length != 1)) = false := by
    by_cases hn : n = 0
    · subst hn
      rfl
    · simp [head?_toDigits hn]
  simp only [number?, hdigits, hzero, htail, decimal_toDigits]
  simpa using hsign

/-- A number begins with `c`. -/
def IsNumberStart (c : Char) : Prop := c.isDigit = true ∨ c = '-'

theorem exists_cons_toString (z : Int) :
    ∃ d ds, (toString z).toList = d :: ds ∧ IsNumberStart d := by
  cases z with
  | ofNat m =>
    have hne : Nat.toDigits 10 m ≠ [] := by simp
    obtain ⟨d, ds, hds⟩ := List.exists_cons_of_ne_nil hne
    have hdigit : d.isDigit = true :=
      Nat.isDigit_of_mem_toDigits (b := 10) (n := m) (by decide) (by decide) (by simp [hds])
    exact ⟨d, ds, by simpa [toString, Int.repr] using hds, .inl hdigit⟩
  | negSucc m => exact ⟨'-', Nat.toDigits 10 (m + 1), by simp [toString, Int.repr], .inr rfl⟩

theorem scalar?_toString (z : Int) (hc : IsNumberEnd c) :
    scalar? ((toString z).toList ++ c :: t) = some (.number (some z), c :: t) := by
  cases z with
  | ofNat m =>
    have htext : (toString (Int.ofNat m)).toList = Nat.toDigits 10 m := by
      simp [toString, Int.repr]
    have hnumber := number?_toDigits false m (t := t) hc (by simp)
    rw [htext]
    obtain ⟨d, ds, hds⟩ := List.exists_cons_of_ne_nil (l := Nat.toDigits 10 m) (by simp)
    have hdigit : d.isDigit = true :=
      Nat.isDigit_of_mem_toDigits (b := 10) (n := m) (by decide) (by decide) (by simp [hds])
    rw [hds, List.cons_append] at hnumber ⊢
    -- no digit begins another kind of value
    rw [scalar?]
    · simpa using hnumber
    all_goals
      intro tail heq
      obtain rfl := (List.cons.inj heq).1
      exact absurd hdigit (by decide)
  | negSucc m =>
    have htext : (toString (Int.negSucc m)).toList = '-' :: Nat.toDigits 10 (m + 1) := by
      simp [toString, Int.repr]
    rw [htext, List.cons_append, scalar?, number?_toDigits true (m + 1) hc (by simp)]
    rfl

theorem skip_of_numberStart (h : IsNumberStart c) : skip (c :: t) = c :: t := by
  have hblank : c ≠ ' ' ∧ c ≠ '\t' ∧ c ≠ '\n' ∧ c ≠ '\r' := by
    refine ⟨?_, ?_, ?_, ?_⟩ <;> rintro rfl <;> exact absurd h (by simp [IsNumberStart])
  simp [skip, hblank]

theorem ne_of_numberStart (h : IsNumberStart c) : c ≠ '[' ∧ c ≠ ']' ∧ c ≠ '\x7b' := by
  refine ⟨?_, ?_, ?_⟩ <;> rintro rfl <;> exact absurd h (by simp [IsNumberStart])

theorem value?_toString (z : Int) (hc : IsNumberEnd c) :
    value? (n + 1) ((toString z).toList ++ c :: t) = some (.number (some z), c :: t) := by
  have hscalar := scalar?_toString z (t := t) hc
  obtain ⟨d, ds, hds, hd⟩ := exists_cons_toString z
  rw [hds, List.cons_append] at hscalar ⊢
  have hne := ne_of_numberStart hd
  rw [value?, skip_of_numberStart hd]
  split
  case h_1 tail heq => exact absurd (List.cons.inj heq).1 hne.1
  case h_2 tail heq => exact absurd (List.cons.inj heq).1 hne.2.2
  case h_3 => exact hscalar

/-- The numbers `zs` of a list, as they are written. -/
def numerals (zs : List Int) : List Char :=
  [','].intercalate (zs.map fun z => (toString z).toList)

section Numerals

variable {z : Int} {zs : List Int}

theorem numerals_cons (hzs : zs ≠ []) :
    numerals (z :: zs) = (toString z).toList ++ ',' :: numerals zs := by
  obtain ⟨y, ys, rfl⟩ := List.exists_cons_of_ne_nil hzs
  simp [numerals, List.intercalate_cons_cons]

theorem exists_cons_numerals (hzs : zs ≠ []) :
    ∃ d ds, numerals zs = d :: ds ∧ IsNumberStart d := by
  obtain ⟨z, zs, rfl⟩ := List.exists_cons_of_ne_nil hzs
  obtain ⟨d, ds, hds, hd⟩ := exists_cons_toString z
  by_cases hlast : zs = []
  · exact ⟨d, ds, by simpa [hlast, numerals] using hds, hd⟩
  · exact ⟨d, ds ++ ',' :: numerals zs, by rw [numerals_cons hlast, hds, List.cons_append], hd⟩

theorem items?_numerals (hzs : zs ≠ []) (hn : zs.length < fuel) :
    items? fuel (numerals zs ++ ']' :: t) = some (zs.map fun z => .number (some z), t) := by
  induction zs generalizing fuel with
  | nil => exact absurd rfl hzs
  | cons z zs ih =>
    -- one step for the list itself and one for the number that stands first in it
    obtain ⟨n, rfl⟩ : ∃ n, fuel = n + 2 := ⟨fuel - 2, by simp at hn; omega⟩
    by_cases hlast : zs = []
    · subst hlast
      have hvalue := value?_toString (n := n) z (c := ']') (t := t) (.inr rfl)
      simp only [numerals, List.map_cons, List.map_nil, List.intercalate_singleton, items?, hvalue]
      rfl
    · have hvalue := value?_toString (n := n) z (c := ',') (t := numerals zs ++ ']' :: t)
        (.inl rfl)
      have hrest := ih hlast (show zs.length < n + 1 by simpa using hn)
      rw [numerals_cons hlast, List.append_assoc, List.cons_append, items?]
      simp only [hvalue, bind, Option.bind]
      simp [skip, hrest]

/-- `value?` reads a list of numbers `zs` as it is written. -/
theorem value?_numerals (hzs : zs ≠ []) (hn : zs.length < n) :
    value? (n + 1) ('[' :: (numerals zs ++ ']' :: t)) =
      some (.array (zs.map fun z => .number (some z)), t) := by
  have hitems := items?_numerals (t := t) hzs hn
  obtain ⟨d, ds, hds, hd⟩ := exists_cons_numerals hzs
  have hbracket : skip ('[' :: (numerals zs ++ ']' :: t)) = '[' :: (numerals zs ++ ']' :: t) :=
    rfl
  rw [hds, List.cons_append] at hitems hbracket ⊢
  rw [value?, hbracket]
  simp only [skip_of_numberStart hd]
  -- the list is not empty, so that what follows the bracket does not close it
  split
  case h_1 tail heq => exact absurd (List.cons.inj heq).1 (ne_of_numberStart hd).2.1
  case h_2 => simp [hitems]

end Numerals

/-! ## Texts as they are written -/

/-- `c` stands for itself in a string. -/
structure IsPlain (c : Char) : Prop where
  quote : c ≠ '"'
  escape : c ≠ '\\'
  printable : 0x20 ≤ c.toNat

instance (c : Char) : Decidable (IsPlain c) :=
  decidable_of_iff (c ≠ '"' ∧ c ≠ '\\' ∧ 0x20 ≤ c.toNat)
    ⟨fun ⟨hq, he, hp⟩ => ⟨hq, he, hp⟩, fun ⟨hq, he, hp⟩ => ⟨hq, he, hp⟩⟩

/-- Whether all characters of `text` are plain is found out one by one. -/
theorem isPlain_of_all {text : List Char} (h : text.all (fun c => decide (IsPlain c)) = true) :
    ∀ c ∈ text, IsPlain c :=
  fun c hc => of_decide_eq_true (List.all_eq_true.1 h c hc)

theorem IsPlain.escape_eq (h : IsPlain c) : Json.escape c = [c] := by
  have hcontrol : ∀ d : Char, d.toNat < 0x20 → c ≠ d := by
    rintro d hd rfl
    exact absurd h.printable (by omega)
  rw [Json.escape, if_neg (by simp [h.quote, h.escape]),
    if_neg (hcontrol _ (by decide)), if_neg (hcontrol _ (by decide)),
    if_neg (hcontrol _ (by decide)), if_neg (hcontrol _ (by decide)),
    if_neg (hcontrol _ (by decide)), if_neg (by have := h.printable; omega)]

theorem quote_of_plain {s : String} (h : ∀ c ∈ s.toList, IsPlain c) :
    (quote s).toList = '"' :: (s.toList ++ ['"']) := by
  have hsame : s.toList.flatMap Json.escape = s.toList := by
    calc s.toList.flatMap Json.escape = s.toList.flatMap fun c => [c] :=
          List.flatMap_congr fun c hc => (h c hc).escape_eq
      _ = s.toList := by simp
  simp [quote, hsame]

theorem pieces?_of_plain (h : ∀ c ∈ t, IsPlain c) :
    pieces? (t ++ '"' :: rest) = some (t.map .char, rest) := by
  induction t with
  | nil => rfl
  | cons c t ih =>
    have hc := h c (by simp)
    have hrest := ih fun d hd => h d (by simp [hd])
    rw [List.cons_append, pieces?]
    · simp only [hrest, if_neg (Nat.not_lt.2 hc.printable)]
      rfl
    · exact hc.quote
    · rintro _ _ _ _ _ rfl
      exact absurd rfl hc.escape
    · rintro _ _ rfl
      exact absurd rfl hc.escape

theorem text?_chars (t : List Char) : Piece.text? (t.map .char) = some t := by
  induction t with
  | nil => rfl
  | cons c t ih => simp [Piece.text?, ih]

/-- `stringTail?` reads a text `s` that stands for itself as it is written. -/
theorem stringTail?_of_plain {s : String} (h : ∀ c ∈ s.toList, IsPlain c) :
    stringTail? (s.toList ++ '"' :: rest) = some (some s, rest) := by
  simp [stringTail?, pieces?_of_plain h, text?_chars]

theorem value?_quote {s : String} (h : ∀ c ∈ s.toList, IsPlain c) :
    value? (n + 1) ((quote s).toList ++ rest) = some (.string (some s), rest) := by
  rw [quote_of_plain h]
  simp [value?, skip, scalar?, stringTail?_of_plain h]

theorem name?_quote {s : String} (h : ∀ c ∈ s.toList, IsPlain c) :
    name? ((quote s).toList ++ ':' :: rest) = some (some s, rest) := by
  rw [quote_of_plain h]
  simp [name?, skip, expect?, stringTail?_of_plain h]

section Objects

variable {name : String} {value : Json} {members : List (Option String × Json)}

theorem members?_single (hname : ∀ c ∈ name.toList, IsPlain c)
    (hvalue : value? n t = some (value, '\x7d' :: rest)) :
    members? (n + 1) ((quote name).toList ++ ':' :: t) = some ([(some name, value)], rest) := by
  simp [members?, name?_quote hname, hvalue, skip]

theorem members?_cons (hname : ∀ c ∈ name.toList, IsPlain c)
    (hvalue : value? n t = some (value, ',' :: rest)) {rest' : List Char}
    (hmembers : members? n rest = some (members, rest')) :
    members? (n + 1) ((quote name).toList ++ ':' :: t) =
      some ((some name, value) :: members, rest') := by
  simp [members?, name?_quote hname, hvalue, hmembers, skip]

theorem value?_members (hname : ∀ c ∈ name.toList, IsPlain c)
    (hmembers : members? n ((quote name).toList ++ t) = some (members, rest)) :
    value? (n + 1) ('\x7b' :: ((quote name).toList ++ t)) = some (.object members, rest) := by
  rw [quote_of_plain hname, List.cons_append, List.append_assoc, List.singleton_append]
    at hmembers ⊢
  simp [value?, skip, hmembers]

end Objects

end BatchMachine.Json
