import BatchMachine.Proofs.Renumbering
import BatchMachine.Session

/-!
# Texts one after the other

A job text can be cut before any line that starts a job. The two pieces assemble on their own,
except that the lines of the second one have greater numbers in the whole text, and these numbers
show only in errors. Object code can be cut in the same way, so that the object code of several
texts, one after the other, holds the segments of all of them.

* `Line.shift`, `AssemblyError.shift`: a line, and an error on it, further down in a text.
* `linesOf_append`, `parts_concat`: the lines of two texts and their parts.
* `assemble_append`: assembling two texts, one after the other.
* `assemble_compositional`: assembling and reading, piece by piece.
-/

namespace BatchMachine.JobText

/-! ## Further down in a text -/

/-- `line`, when it stands further down by `n` lines. -/
def Line.shift (n : Nat) (line : Line) : Line :=
  { line with number := line.number + n }

/-- An error on a line that stands further down by `n` lines. A label is blamed for two
instructions, and these are counted from the start of their part. -/
def AssemblyError.shift (n : Nat) : AssemblyError → AssemblyError
  | unknownMnemonic line word => unknownMnemonic (line + n) word
  | operands line cause => operands (line + n) cause
  | ambiguousLabel label first second => ambiguousLabel label first second
  | undefinedLabel line label => undefinedLabel (line + n) label
  | missingJobName line => missingJobName (line + n)
  | badInput line => badInput (line + n)

theorem Line.renumbered_shift (n : Nat) (line : Line) : line.Renumbered (· + n) (line.shift n) :=
  ⟨rfl, rfl, rfl⟩

theorem AssemblyError.renumber_add (n : Nat) : renumber (· + n) = shift n := by
  funext e
  cases e <;> rfl

/-! ## Lines and parts -/

/-- `text` is empty or ends with its last line. -/
def EndsInLine (text : String) : Prop :=
  text = "" ∨ ∃ body, text = body ++ "\n"

/-- Nothing that counts stands before the first `$JOB` line of `text`. -/
def StartsWithJob (text : String) : Prop :=
  ∀ line ∈ (linesOf text).head?, line.isJob = true

/-- The raw line `raw` with its `number`, if it holds something. -/
def line? (raw : List Char) (number : Nat) : Option Line :=
  if (cleaned raw).isEmpty then none else some ⟨number, cleaned raw⟩

theorem linesOf_eq (text : String) :
    linesOf text = ((text.toList.splitOn '\n').zipIdx 1).filterMap fun r => line? r.1 r.2 := rfl

theorem line?_add (raw : List Char) (number n : Nat) :
    line? raw (number + n) = (line? raw number).map (Line.shift n) := by
  unfold line?
  split <;> rfl

/-- Raw lines that are counted from a number that is higher by `n` hold the same lines, further
down. -/
theorem filterMap_zipIdx_add (raws : List (List Char)) (k n : Nat) :
    ((raws.zipIdx (k + n)).filterMap fun r => line? r.1 r.2) =
      ((raws.zipIdx k).filterMap fun r => line? r.1 r.2).map (Line.shift n) := by
  induction raws generalizing k with
  | nil => rfl
  | cons raw raws ih =>
    have hrest := ih (k + 1)
    rw [Nat.add_right_comm] at hrest
    rw [List.zipIdx_cons, List.zipIdx_cons, List.filterMap_cons, List.filterMap_cons, hrest,
      line?_add]
    cases line? raw k <;> rfl

theorem length_splitOn (cs : List Char) : (cs.splitOn '\n').length = cs.count '\n' + 1 := by
  induction cs with
  | nil => rfl
  | cons c cs ih =>
    rw [List.splitOn_eq_splitOnP] at ih ⊢
    rw [List.splitOnP_cons_eq_if_modifyHead, List.count_cons]
    split <;> simp_all

/-- The lines of `s` and `t`, one after the other. -/
theorem linesOf_append {s t : String} (hs : EndsInLine s) :
    linesOf (s ++ t) =
      linesOf s ++ (linesOf t).map (Line.shift (s.toList.count '\n')) := by
  rcases hs with rfl | ⟨body, rfl⟩
  · have hsame : Line.shift 0 = id := rfl
    have hnone : linesOf "" = [] := rfl
    simp [hsame, hnone]
  · set cs := body.toList with hcs
    have hcount : (body ++ "\n").toList.count '\n' = (cs.splitOn '\n').length := by
      rw [length_splitOn]
      simp [hcs]
    -- the line feed ends the last line of the first text, and nothing stands after it
    have hfirst : ((body ++ "\n").toList).splitOn '\n' = cs.splitOn '\n' ++ [[]] := by
      simpa using List.splitOn_append_cons_self (a := '\n') cs []
    have hboth : ((body ++ "\n" ++ t).toList).splitOn '\n' =
        cs.splitOn '\n' ++ t.toList.splitOn '\n' := by
      simpa using List.splitOn_append_cons_self (a := '\n') cs t.toList
    have hempty : line? [] (1 + (cs.splitOn '\n').length) = none := rfl
    rw [linesOf_eq, linesOf_eq, linesOf_eq, hfirst, hboth, hcount, List.zipIdx_append,
      List.zipIdx_append, List.filterMap_append, List.filterMap_append, filterMap_zipIdx_add]
    simp [hempty]

/-- A `$JOB` line ends the part before it, so that `lines` and `lines'` have their parts one after
the other. -/
theorem parts_concat (lines : List Line) {lines' : List Line}
    (h : ∀ line ∈ lines'.head?, line.isJob = true) :
    parts (lines ++ lines') = parts lines ++ parts lines' := by
  have hstop : lines'.takeWhile (fun l => !l.isJob) = [] := by
    cases lines' with
    | nil => rfl
    | cons line lines' => simp [h line (by simp)]
  induction lines with
  | nil => rfl
  | cons line lines ih =>
    have hbody : (lines ++ lines').takeWhile (fun l => !l.isJob) =
        lines.takeWhile fun l => !l.isJob := by
      rw [List.takeWhile_append, hstop]
      split
      case isTrue hall =>
        rw [List.append_nil]
        exact ((List.takeWhile_prefix _).eq_of_length hall).symm
      case isFalse => rfl
    rw [List.cons_append, parts, parts, ih, hbody]
    split <;> rfl

/-! ## Two texts -/

/-- The texts `s` and `t`, one after the other, assemble part by part. -/
theorem assemble_append {s t : String} (hs : EndsInLine s) (ht : StartsWithJob t) :
    assemble (s ++ t) = do
      let first ← assemble s
      let second ← (assemble t).mapError (AssemblyError.shift (s.toList.count '\n'))
      return first ++ second := by
  have hjob : ∀ line ∈ ((linesOf t).map (Line.shift (s.toList.count '\n'))).head?,
      line.isJob = true := by
    intro line hline
    rw [List.head?_map] at hline
    obtain ⟨line', hline', rfl⟩ := Option.map_eq_some_iff.1 hline
    exact ht line' hline'
  have hrest : List.Forall₂ (Line.Renumbered (· + s.toList.count '\n')) (linesOf t)
      ((linesOf t).map (Line.shift (s.toList.count '\n'))) :=
    List.forall₂_map_right_iff.2 (List.forall₂_same.2 fun line _ => line.renumbered_shift _)
  unfold assemble
  rw [linesOf_append hs, parts_concat _ hjob, List.mapM_append, assembleParts_renumbered hrest,
    AssemblyError.renumber_add]

/-! ## Object code -/

theorem objectText_append (ss ss' : List Segment) :
    objectText (ss ++ ss') = objectText ss ++ objectText ss' := by
  simp [objectText, unlines]

theorem objectText_flatten (sss : List (List Segment)) :
    objectText sss.flatten = String.join (sss.map objectText) := by
  induction sss with
  | nil => rfl
  | cons ss sss ih => rw [List.flatten_cons, objectText_append, ih, List.map_cons, String.join_cons]

theorem assembleText_eq_ok_iff {source object : String} :
    assembleText source = .ok object ↔ ∃ ss, assemble source = .ok ss ∧ object = objectText ss := by
  unfold assembleText
  cases assemble source <;> simp [bind, Except.bind, pure, Except.pure, eq_comm]

/-- The object code of several `sources`, one after the other, reads as the segments of all of
them. -/
theorem segments_join (origin : String) {sources : List String} {sss : List (List Segment)}
    (h : List.Forall₂ (fun source ss => assemble source = .ok ss) sources sss) :
    (Reader.ofText origin (String.join (sss.map objectText))).segments.1 = .ok sss.flatten := by
  have hwell : ∀ s ∈ sss.flatten, s.IsWellFormed := by
    intro s hs
    obtain ⟨ss, hss, hs⟩ := List.mem_flatten.1 hs
    obtain ⟨source, _, hsource⟩ := exists_of_forall₂ h hss
    exact isWellFormed_of_assemble hsource hs
  obtain ⟨r, hread, _⟩ := segments_objectText origin hwell
  rw [← objectText_flatten, hread]

/-- The files at `paths` of an assembly command are assembled one by one. -/
theorem assembleAll_eq_ok {files : Files} {paths sources objects : List String}
    (hread : List.Forall₂ (fun path source => files.read path = .ok source) paths sources)
    (h : List.Forall₂ (fun source object => assembleText source = .ok object) sources objects) :
    Session.assembleAll files paths = .ok (String.join objects) := by
  induction hread generalizing objects with
  | nil =>
    cases h
    rfl
  | cons hpath _ ih =>
    cases h with
    | cons hsource hrest =>
      rw [Session.assembleAll, hpath]
      simp only [hsource, ih hrest, String.join_cons]

/-- If `s` ends in whole lines and `t` starts with a job, they assemble one after the other just as
they do on their own, to the segments and the object code of the one and then of the other. What
fails in one of them is what fails in both together, with line numbers that count from the start of
`s`. And the object code that is written for any texts, one after the other, reads as the segments
of all of them. -/
theorem assemble_compositional :
    (∀ s t : String, EndsInLine s → StartsWithJob t →
      (∀ ss, assemble (s ++ t) = .ok ss ↔
        ∃ ss₁ ss₂, assemble s = .ok ss₁ ∧ assemble t = .ok ss₂ ∧ ss = ss₁ ++ ss₂) ∧
      (∀ object, assembleText (s ++ t) = .ok object ↔
        ∃ object₁ object₂, assembleText s = .ok object₁ ∧ assembleText t = .ok object₂ ∧
          object = object₁ ++ object₂) ∧
      ∀ e, assemble (s ++ t) = .error e ↔ assemble s = .error e ∨
        ∃ ss e', assemble s = .ok ss ∧ assemble t = .error e' ∧
          e = e'.shift (s.toList.count '\n')) ∧
    ∀ (sources : List String) (sss : List (List Segment)),
      List.Forall₂ (fun source ss => assemble source = .ok ss) sources sss →
      ∃ objects,
        List.Forall₂ (fun source object => assembleText source = .ok object) sources objects ∧
        (∀ origin, (Reader.ofText origin (String.join objects)).segments.1 = .ok sss.flatten) ∧
        ∀ files paths, List.Forall₂ (fun path source => Files.read files path = .ok source)
          paths sources → Session.assembleAll files paths = .ok (String.join objects) := by
  refine ⟨fun s t hs ht => ?_, fun sources sss h => ?_⟩
  · -- the lines of the two texts are those of the whole text, with other numbers
    have hboth := assemble_append hs ht
    have hsegments : ∀ ss, assemble (s ++ t) = .ok ss ↔
        ∃ ss₁ ss₂, assemble s = .ok ss₁ ∧ assemble t = .ok ss₂ ∧ ss = ss₁ ++ ss₂ := by
      intro ss
      rw [hboth]
      cases assemble s <;> cases assemble t <;>
        simp [bind, Except.bind, pure, Except.pure, Except.mapError, eq_comm]
    refine ⟨hsegments, fun object => ?_, fun e => ?_⟩
    · simp only [assembleText_eq_ok_iff, hsegments]
      constructor
      · rintro ⟨_, ⟨ss₁, ss₂, hfirst, hsecond, rfl⟩, rfl⟩
        exact ⟨_, _, ⟨ss₁, hfirst, rfl⟩, ⟨ss₂, hsecond, rfl⟩, objectText_append ss₁ ss₂⟩
      · rintro ⟨_, _, ⟨ss₁, hfirst, rfl⟩, ⟨ss₂, hsecond, rfl⟩, rfl⟩
        exact ⟨_, ⟨ss₁, ss₂, hfirst, hsecond, rfl⟩, (objectText_append ss₁ ss₂).symm⟩
    · rw [hboth]
      cases assemble s <;> cases assemble t <;>
        simp [bind, Except.bind, pure, Except.pure, Except.mapError, eq_comm]
  · have hobjects : List.Forall₂ (fun source object => assembleText source = .ok object) sources
        (sss.map objectText) := by
      rw [List.forall₂_map_right_iff]
      exact h.imp fun source ss hsource => assembleText_eq_ok_iff.2 ⟨ss, hsource, rfl⟩
    exact ⟨sss.map objectText, hobjects, fun origin => segments_join origin h,
      fun files paths hread => assembleAll_eq_ok hread hobjects⟩

/-- A text with a line before its first job, a label, and an input section that nothing closes. -/
def openSource : String :=
  "belongs to no job\n$JOB a\ntop NOP\nJMP top\n$RUN\n1\n2\n"

/-- A text whose job has the same name and the same label, and no input. -/
def closedSource : String :=
  "\n $JOB a % again\nADDI 1, 1, 1\ntop JMP top\n"

/-- A text with a fault on its second line. -/
def faultySource : String :=
  "$JOB b\nJMP top\n"

/-- The input section of the first text ends at the second one, both have the label for themselves,
and a label of the first text is not known in a later one. -/
theorem assemble_compositional_seam :
    (EndsInLine openSource ∧ StartsWithJob closedSource ∧
      assemble (openSource ++ closedSource) =
        .ok [⟨"a", [.nop, ⟨.jmpi, -2, 0, 0⟩], some [1, 2]⟩,
          ⟨"a", [⟨.addi, 1, 1, 1⟩, ⟨.jmpi, -1, 0, 0⟩], none⟩] ∧
      ∃ object₁ object₂, assembleText openSource = .ok object₁ ∧
        assembleText closedSource = .ok object₂ ∧
        assembleText (openSource ++ closedSource) = .ok (object₁ ++ object₂)) ∧
    (StartsWithJob faultySource ∧
      assemble (openSource ++ faultySource) = .error (.undefinedLabel 9 "top")) ∧
    ∃ objects,
      List.Forall₂ (fun source object => assembleText source = .ok object)
        [closedSource, openSource] objects ∧
      ∀ origin, (Reader.ofText origin (String.join objects)).segments.1 =
        .ok [⟨"a", [⟨.addi, 1, 1, 1⟩, ⟨.jmpi, -1, 0, 0⟩], none⟩,
          ⟨"a", [.nop, ⟨.jmpi, -2, 0, 0⟩], some [1, 2]⟩] := by
  obtain ⟨hpieces, hobjects⟩ := assemble_compositional
  have hopen : assemble openSource = .ok [⟨"a", [.nop, ⟨.jmpi, -2, 0, 0⟩], some [1, 2]⟩] := by
    decide +kernel
  have hclosed : assemble closedSource =
      .ok [⟨"a", [⟨.addi, 1, 1, 1⟩, ⟨.jmpi, -1, 0, 0⟩], none⟩] := by
    decide +kernel
  have hfaulty : assemble faultySource = .error (.undefinedLabel 2 "top") := by
    decide +kernel
  have hends : EndsInLine openSource :=
    .inr ⟨"belongs to no job\n$JOB a\ntop NOP\nJMP top\n$RUN\n1\n2", by decide +kernel⟩
  have hstarts : StartsWithJob closedSource := by
    unfold StartsWithJob
    decide +kernel
  have hstarts' : StartsWithJob faultySource := by
    unfold StartsWithJob
    decide +kernel
  obtain ⟨hsegments, htexts, _⟩ := hpieces _ _ hends hstarts
  obtain ⟨_, _, herrors⟩ := hpieces _ _ hends hstarts'
  obtain ⟨objects, hassembled, hread, _⟩ := hobjects [closedSource, openSource] _
    (.cons hclosed (.cons hopen .nil))
  exact ⟨⟨hends, hstarts, (hsegments _).2 ⟨_, _, hopen, hclosed, rfl⟩, _, _,
      assembleText_eq_ok_iff.2 ⟨_, hopen, rfl⟩, assembleText_eq_ok_iff.2 ⟨_, hclosed, rfl⟩,
      (htexts _).2 ⟨_, _, assembleText_eq_ok_iff.2 ⟨_, hopen, rfl⟩,
        assembleText_eq_ok_iff.2 ⟨_, hclosed, rfl⟩, rfl⟩⟩,
    ⟨hstarts', (herrors _).2 (.inr ⟨_, _, hopen, hfaulty, by decide +kernel⟩)⟩,
    objects, hassembled, hread⟩

end BatchMachine.JobText
