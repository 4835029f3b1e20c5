import Mathlib.Data.List.Basic
import BatchMachine.Proofs.Handover

/-!
# Output files

Every segment of every job has an output file of its own. A machine changes nothing of a file tree
but the content of files and which of them exist, so that the path of an output file leads to the
same location throughout, and no two of these locations are the same.

* `Files.Alike`: two file trees differ in files at most.
* `Files.Places`: a path leads to the location at which a file would be created.
* `written`: what a file holds after words have been written to it.
* `Machine.places_inj`: the output files of different segments have different locations.
* `Machine.Wrote`: what the output file of a segment holds.
-/

namespace BatchMachine

namespace Path

/-- The last name of `path`, if the path does not end in a slash. -/
theorem lastName?_of_names {path last : String} {before : List String}
    (hnames : names path = before ++ [last]) (hlast : last ≠ "") :
    lastName? path = some (before, last) := by
  have hstop : (last == "") = false := by simpa using hlast
  unfold lastName?
  rw [hnames, List.reverse_append, List.reverse_singleton, List.singleton_append,
    List.dropWhile_cons, hstop]
  simp

/-- `name`, if it has no slash, is the last name of its path in any `directory`. -/
theorem names_join {directory name : String} (hname : '/' ∉ name.toList) :
    ∃ before, names (join directory name) = before ++ [name] := by
  have hown : name.toList.splitOn '/' = [name.toList] := List.splitOn_eq_singleton hname
  have hsplit : ∀ chars : List Char,
      ((chars ++ '/' :: name.toList).splitOn '/').map String.ofList =
        (chars.splitOn '/').map String.ofList ++ [name] := by
    intro chars
    rw [List.splitOn_append_cons_self, hown, List.map_append, List.map_singleton,
      String.ofList_toList]
  unfold join names
  split
  · refine ⟨[], ?_⟩
    rw [hown, List.map_singleton, String.ofList_toList, List.nil_append]
  · rename_i hslash
    obtain ⟨chars, hchars⟩ := List.getLast?_eq_some_iff.1 hslash
    refine ⟨(chars.splitOn '/').map String.ofList, ?_⟩
    rw [String.toList_append, hchars, List.append_assoc, List.singleton_append, hsplit]
  · refine ⟨(directory.toList.splitOn '/').map String.ofList, ?_⟩
    rw [String.toList_append, String.toList_append, List.append_assoc]
    exact hsplit _

end Path

namespace Files

variable {f g h : Files} {loc l : Location} {path : String}

/-- What stands at `loc` is a file, or nothing does. -/
def Plain (f : Files) (loc : Location) : Prop :=
  f.entry? loc = none ∨ f.entry? loc = some .bytes ∨ ∃ content, f.entry? loc = some (.text content)

/-- `f` and `g` differ in their files at most. -/
def Alike (f g : Files) : Prop :=
  ∀ loc, g.entry? loc = f.entry? loc ∨ (f.Plain loc ∧ g.Plain loc)

theorem Alike.refl (f : Files) : f.Alike f :=
  fun _ => .inl rfl

theorem Plain.of_eq (hplain : f.Plain loc) (hsame : g.entry? loc = f.entry? loc) :
    g.Plain loc := by
  unfold Plain
  rw [hsame]
  exact hplain

theorem Alike.plain (halike : f.Alike g) (hplain : f.Plain loc) : g.Plain loc := by
  rcases halike loc with hsame | ⟨_, hplain'⟩
  · exact hplain.of_eq hsame
  · exact hplain'

theorem Alike.trans (h₁ : f.Alike g) (h₂ : g.Alike h) : f.Alike h := by
  intro loc
  rcases h₁ loc with hsame | ⟨hf, hg⟩
  · rcases h₂ loc with hsame' | ⟨hg, hh⟩
    · exact .inl (hsame'.trans hsame)
    · exact .inr ⟨hg.of_eq hsame.symm, hh⟩
  · exact .inr ⟨hf, h₂.plain hg⟩

theorem Alike.symm (halike : f.Alike g) : g.Alike f :=
  fun loc => (halike loc).imp Eq.symm And.symm

/-- Where `f` has something other than a file, so has `g`. -/
theorem Alike.entry_eq (halike : f.Alike g) (hplain : ¬ f.Plain loc) :
    g.entry? loc = f.entry? loc :=
  (halike loc).resolve_right fun h => hplain h.1

theorem not_plain_directory (hdirectory : f.entry? loc = some .directory) : ¬ f.Plain loc := by
  rintro (h | h | ⟨_, h⟩) <;> simp [hdirectory] at h

/-- Replacing what stands at `loc` shows there alone. -/
theorem lookup_replace (entries : List (Location × Entry)) (entry : Entry) :
    (entries.map fun (l, e) => if l = loc then (l, entry) else (l, e)).lookup l =
      if l = loc then (entries.lookup l).map fun _ => entry else entries.lookup l := by
  induction entries with
  | nil => simp
  | cons pair rest ih =>
    obtain ⟨l₀, e₀⟩ := pair
    by_cases hl : l = l₀
    · subst hl
      by_cases hloc : l = loc <;> simp [hloc]
    · have hne : (l == l₀) = false := by simpa using hl
      rw [List.map_cons]
      by_cases hloc : l₀ = loc
      · simp only [if_pos hloc, List.lookup_cons, hne]
        exact ih
      · simp only [if_neg hloc, List.lookup_cons, hne]
        exact ih

/-- `put` shows at `loc` alone. -/
theorem entry_put (entry : Entry) (hfree : isFixed loc = false) :
    Files.entry? (f.put loc entry) l = if l = loc then some entry else f.entry? l := by
  have hlookup : (f.put loc entry).entries.lookup l =
      if l = loc then some entry else f.entries.lookup l := by
    unfold put
    -- an entry that stands there is replaced, and a new one goes to the end
    by_cases hsome : (f.entries.lookup loc).isSome = true
    · rw [if_pos hsome]
      simp only [lookup_replace]
      by_cases hl : l = loc
      · subst hl
        obtain ⟨e, he⟩ := Option.isSome_iff_exists.1 hsome
        simp [he]
      · rw [if_neg hl, if_neg hl]
    · rw [if_neg hsome]
      simp only [List.lookup_append]
      by_cases hl : l = loc
      · subst hl
        simp only [Bool.not_eq_true, Option.isSome_eq_false_iff, Option.isNone_iff_eq_none] at hsome
        simp [hsome]
      · have hne : (l == loc) = false := by simpa using hl
        simp [hl, List.lookup_cons, hne]
  unfold entry?
  rw [hlookup]
  by_cases hl : l = loc
  · subst hl
    simp [hfree]
  · simp [hl]

/-- A location `loc` at which no directory stands is not one of those that are always there. -/
theorem isFixed_eq_false (hentry : f.entry? loc ≠ some .directory) : isFixed loc = false := by
  unfold entry? at hentry
  by_cases hfixed : isFixed loc = true
  · rw [if_pos hfixed] at hentry
    exact absurd rfl hentry
  · simpa using hfixed

/-- A file may change to any `content`. -/
theorem alike_put (hplain : f.Plain loc) (content : String) :
    f.Alike (f.put loc (.text content)) := by
  have hfree : isFixed loc = false := isFixed_eq_false fun hdirectory =>
    not_plain_directory hdirectory hplain
  intro l
  by_cases hl : l = loc
  · subst hl
    exact .inr ⟨hplain, .inr (.inr ⟨content, by rw [entry_put _ hfree, if_pos rfl]⟩)⟩
  · exact .inl (by rw [entry_put _ hfree, if_neg hl])

/-! ## Where paths lead -/

theorem directoryAt_eq_ok : f.directoryAt loc = .ok () ↔ f.entry? loc = some .directory := by
  unfold directoryAt
  split
  · rename_i hentry
    simp [hentry]
  · rename_i hother hentry
    simp only [hentry, reduceCtorEq, Option.some.injEq, false_iff]
    exact hother
  · rename_i hentry
    simp [hentry]

/-- A directory of `f` is one of `g`. -/
theorem Alike.directoryAt (halike : f.Alike g) (hok : f.directoryAt loc = .ok ()) :
    g.directoryAt loc = .ok () := by
  rw [directoryAt_eq_ok] at hok ⊢
  rw [halike.entry_eq (not_plain_directory hok), hok]

theorem Alike.walk (halike : f.Alike g) {names : List String}
    (hwalk : f.walk loc names = .ok l) : g.walk loc names = .ok l := by
  induction names generalizing loc with
  | nil => exact hwalk
  | cons name names ih =>
    unfold Files.walk at hwalk ⊢
    obtain ⟨_, hdirectory, hwalk⟩ := ok_of_bind hwalk
    obtain ⟨_, hname, hwalk⟩ := ok_of_bind hwalk
    -- a name is looked up in a directory, and the trees have the same ones
    rw [halike.directoryAt hdirectory, hname]
    exact ih hwalk

/-- `walk` follows the names of a path one after the other. -/
theorem walk_append {names more : List String} (hwalk : f.walk loc names = .ok l) :
    f.walk loc (names ++ more) = f.walk l more := by
  induction names generalizing loc with
  | nil =>
    cases hwalk
    rfl
  | cons name names ih =>
    rw [List.cons_append]
    unfold Files.walk at hwalk
    obtain ⟨_, hdirectory, hwalk⟩ := ok_of_bind hwalk
    obtain ⟨_, hname, hwalk⟩ := ok_of_bind hwalk
    rw [Files.walk, hdirectory, hname]
    exact ih hwalk

theorem exists_of_walk_append {names more : List String}
    (hwalk : f.walk loc (names ++ more) = .ok l) :
    ∃ l', f.walk loc names = .ok l' ∧ f.walk l' more = .ok l := by
  induction names generalizing loc with
  | nil => exact ⟨loc, rfl, hwalk⟩
  | cons name names ih =>
    rw [List.cons_append] at hwalk
    unfold Files.walk at hwalk
    obtain ⟨_, hdirectory, hwalk⟩ := ok_of_bind hwalk
    obtain ⟨_, hname, hwalk⟩ := ok_of_bind hwalk
    obtain ⟨l', hnames, hmore⟩ := ih hwalk
    refine ⟨l', ?_, hmore⟩
    rw [Files.walk, hdirectory, hname]
    exact hnames

/-- `path` leads to the same location in `f` and `g`, which differ in their files at most. -/
theorem Alike.resolve (halike : f.Alike g) (hresolve : f.resolve path = .ok loc) :
    g.resolve path = .ok loc := by
  unfold Files.resolve at hresolve ⊢
  obtain ⟨_, hpath, hwalk⟩ := ok_of_bind hresolve
  rw [hpath]
  exact halike.walk hwalk

/-- The name `last`, if it is no step to another place, is the last one of the location that its
path leads to. -/
theorem getLast?_of_resolve (hresolve : f.resolve path = .ok loc) {before : List String}
    {last : String} (hnames : Path.names path = before ++ [last]) (hempty : last ≠ "")
    (hdot : last ≠ ".") (hdots : last ≠ "..") : loc.getLast? = some last := by
  unfold resolve at hresolve
  obtain ⟨_, _, hwalk⟩ := ok_of_bind hresolve
  rw [hnames] at hwalk
  obtain ⟨directory, _, hlast⟩ := exists_of_walk_append hwalk
  unfold walk walk at hlast
  obtain ⟨_, _, hlast⟩ := ok_of_bind hlast
  obtain ⟨_, _, hlast⟩ := ok_of_bind hlast
  simp only [descend, hempty, hdot, hdots, or_self, if_false, Except.ok.injEq] at hlast
  rw [← hlast, List.getLast?_concat]

/-- `path` leads to `loc`, the location at which a file would be created. -/
def Places (f : Files) (path : String) (loc : Location) : Prop :=
  ∃ files, f.create path = .ok (files, loc)

theorem Places.eq (h₁ : f.Places path loc) (h₂ : f.Places path l) : loc = l := by
  obtain ⟨files₁, hcreate₁⟩ := h₁
  obtain ⟨files₂, hcreate₂⟩ := h₂
  rw [hcreate₁] at hcreate₂
  simp only [Except.ok.injEq, Prod.mk.injEq] at hcreate₂
  exact hcreate₂.2

/-- `create` puts a file in the directory of the last name of its path. It is empty, unless this is
the place of a device, and nothing else changes. -/
theorem create_inv {files : Files} (hcreate : f.create path = .ok (files, loc)) :
    ∃ directory last, f.resolveLast path = .ok (some (directory, last)) ∧
      Path.endsInSlash path = false ∧ checkName last = .ok () ∧ loc = descend directory last ∧
      f.entry? loc ≠ some .directory ∧
      ((¬ f.Plain loc ∧ files = f) ∨ (f.Plain loc ∧ files = f.put loc (.text ""))) := by
  unfold create at hcreate
  obtain ⟨found?, hfound, hcreate⟩ := ok_of_bind hcreate
  match found? with
  | none => simp at hcreate
  | some (directory, last) =>
    simp only at hcreate
    by_cases hslash : Path.endsInSlash path = true
    · rw [if_pos hslash] at hcreate
      exact absurd hcreate throw_bind_ne_ok
    · rw [if_neg hslash] at hcreate
      obtain ⟨_, hname, hcreate⟩ := ok_of_bind hcreate
      refine ⟨directory, last, hfound, by simpa using hslash, hname, ?_⟩
      -- what stands at the location decides between a device, a file and nothing
      split at hcreate
      · simp at hcreate
      all_goals
        rename_i hentry
        simp only [Except.ok.injEq, Prod.mk.injEq] at hcreate
        obtain ⟨rfl, rfl⟩ := hcreate
        exact ⟨rfl, by simp [hentry], by simp [Plain, hentry]⟩

/-- `path` leads to a place `loc` in the directory of its last name. -/
theorem places_iff : f.Places path loc ↔
    ∃ directory last, f.resolveLast path = .ok (some (directory, last)) ∧
      Path.endsInSlash path = false ∧ checkName last = .ok () ∧ loc = descend directory last ∧
      f.entry? loc ≠ some .directory := by
  constructor
  · rintro ⟨files, hcreate⟩
    obtain ⟨directory, last, hfound, hslash, hname, hloc, hentry, _⟩ := create_inv hcreate
    exact ⟨directory, last, hfound, hslash, hname, hloc, hentry⟩
  · rintro ⟨directory, last, hfound, hslash, hname, rfl, hentry⟩
    unfold Places create
    rw [hfound]
    simp only [bind, Except.bind, hslash, hname, Bool.false_eq_true, if_false]
    split
    · rename_i hdirectory
      exact absurd hdirectory hentry
    all_goals exact ⟨_, rfl⟩

/-- What `create` does: an empty file stands at `loc`, unless that is the place of a device, and
nothing else changes. -/
theorem create_cases {files : Files} (hcreate : f.create path = .ok (files, loc)) :
    (¬ f.Plain loc ∧ files = f) ∨
      (f.Plain loc ∧ files = f.put loc (.text "")) := by
  obtain ⟨_, _, _, _, _, _, _, hcases⟩ := create_inv hcreate
  exact hcases

theorem alike_create {files : Files} (hcreate : f.create path = .ok (files, loc)) :
    f.Alike files := by
  rcases create_cases hcreate with ⟨_, rfl⟩ | ⟨hplain, rfl⟩
  · exact .refl _
  · exact alike_put hplain ""

/-- `create` changes nothing at locations other than `loc`. -/
theorem entry_create {files : Files} (hcreate : f.create path = .ok (files, loc))
    (hl : l ≠ loc) : files.entry? l = f.entry? l := by
  rcases create_cases hcreate with ⟨_, rfl⟩ | ⟨hplain, rfl⟩
  · rfl
  · have hfree : isFixed loc = false := isFixed_eq_false fun hdirectory =>
      not_plain_directory hdirectory hplain
    rw [entry_put _ hfree, if_neg hl]

theorem Alike.places (halike : f.Alike g) (hplaces : f.Places path loc) : g.Places path loc := by
  rw [places_iff] at hplaces ⊢
  obtain ⟨directory, last, hfound, hslash, hname, hloc, hentry⟩ := hplaces
  refine ⟨directory, last, ?_, hslash, hname, hloc, fun hdirectory => ?_⟩
  · unfold resolveLast at hfound ⊢
    obtain ⟨_, hpath, hfound⟩ := ok_of_bind hfound
    rw [hpath]
    simp only [bind, Except.bind] at hfound ⊢
    split at hfound
    · simp [pure, Except.pure] at hfound
    · rename_i before last' hlast
      obtain ⟨loc', hwalk, hfound⟩ := ok_of_bind hfound
      obtain ⟨_, hdirectory, hfound⟩ := ok_of_bind hfound
      rw [halike.walk hwalk]
      simp only
      rw [halike.directoryAt hdirectory]
      exact hfound
  · rcases halike loc with hsame | ⟨_, hplain⟩
    · exact hentry (hsame ▸ hdirectory)
    · exact not_plain_directory hdirectory hplain

/-- A file that is created at `path` stands where the path leads to. -/
theorem Places.resolve (hplaces : f.Places path loc) {before : List String} {last : String}
    (hnames : Path.names path = before ++ [last]) (hlast : last ≠ "") :
    f.resolve path = .ok loc := by
  obtain ⟨directory, last', hfound, _, hname, rfl, _⟩ := places_iff.1 hplaces
  unfold resolveLast at hfound
  obtain ⟨_, hpath, hfound⟩ := ok_of_bind hfound
  rw [Path.lastName?_of_names hnames hlast] at hfound
  obtain ⟨loc', hwalk, hfound⟩ := ok_of_bind hfound
  obtain ⟨_, hdirectory, hfound⟩ := ok_of_bind hfound
  simp only [pure, Except.pure, Except.ok.injEq, Option.some.injEq, Prod.mk.injEq] at hfound
  obtain ⟨rfl, rfl⟩ := hfound
  unfold Files.resolve
  rw [hpath, hnames]
  simp only [bind, Except.bind]
  rw [walk_append hwalk]
  unfold Files.walk Files.walk
  simp only [hdirectory, hname, bind, Except.bind]

/-- A file at the location `loc` that `path` leads to can be read by this path. -/
theorem Places.read (hplaces : f.Places path loc) {before : List String} {last content : String}
    (hnames : Path.names path = before ++ [last]) (hlast : last ≠ "")
    (hentry : f.entry? loc = some (.text content)) : f.read path = .ok content := by
  unfold Files.read
  rw [hplaces.resolve hnames hlast]
  simp only [bind, Except.bind, hentry]

/-! ## Appending -/

/-- `append` shows at the end of the file at `loc`, and nowhere else. -/
theorem entry_append {content : String} (hentry : f.entry? loc = some (.text content))
    (more : String) : Files.entry? (f.append loc more) l =
      if l = loc then some (.text (content ++ more)) else f.entry? l := by
  have hfree : isFixed loc = false := isFixed_eq_false (f := f) (by simp [hentry])
  unfold append
  rw [hentry]
  exact entry_put _ hfree

/-- `append` changes files at most. -/
theorem alike_append (f : Files) (loc : Location) (more : String) :
    f.Alike (f.append loc more) := by
  unfold append
  split
  case h_1 content hentry => exact alike_put (.inr (.inr ⟨content, hentry⟩)) _
  -- what is printed stands at no location
  case h_2 => exact fun l => .inl rfl
  case h_3 => exact .refl f

end Files

/-- What an output file holds after `words` have been written to it, one on a line. -/
def written (words : List Word) : String :=
  String.join (words.map fun w => Numeral.decimal w ++ "\n")

theorem written_append (words : List Word) (w : Word) :
    written (words ++ [w]) = written words ++ (Numeral.decimal w ++ "\n") := by
  simp [written, String.join]

/-! ## The names of output files -/

/-- The name of the output file of segment `segment` of job `j`. -/
def outputName (j segment : Nat) : String :=
  s!"job{j}-sub{segment}.out"

theorem toList_outputName (j segment : Nat) : (outputName j segment).toList =
    ['j', 'o', 'b'] ++ (Nat.toDigits 10 j ++ '-' ::
      (['s', 'u', 'b'] ++ (Nat.toDigits 10 segment ++ '.' :: ['o', 'u', 't']))) := by
  have hjob : (toString "job").toList = ['j', 'o', 'b'] := rfl
  have hsub : (toString "-sub").toList = ['-', 's', 'u', 'b'] := rfl
  have hout : (toString ".out").toList = ['.', 'o', 'u', 't'] := rfl
  simp [outputName, hjob, hsub, hout]

/-- A character `c` that is no digit is not among the digits of `n`. -/
theorem notMem_toDigits {c : Char} (hc : c.isDigit = false) (n : Nat) :
    c ∉ Nat.toDigits 10 n := by
  intro hmem
  rw [Nat.isDigit_of_mem_toDigits (by decide) (by decide) hmem] at hc
  exact absurd hc (by decide)

theorem toDigits_inj {m n : Nat} (h : Nat.toDigits 10 m = Nat.toDigits 10 n) : m = n := by
  have hvalue := congrArg (fun digits => Nat.ofDigitChars 10 digits 0) h
  simpa only [Nat.ofDigitChars_ten_toDigits] using hvalue

/-- The output files of different segments have different names. -/
theorem outputName_inj {j k s t : Nat} (h : outputName j s = outputName k t) : j = k ∧ s = t := by
  have hlist := congrArg String.toList h
  have hminus : ∀ n, '-' ∉ Nat.toDigits 10 n := notMem_toDigits (by decide)
  have hpoint : ∀ n, '.' ∉ Nat.toDigits 10 n := notMem_toDigits (by decide)
  rw [toList_outputName, toList_outputName, List.append_cancel_left_eq,
    List.append_cons_inj_of_notMem (hminus j) (by simp [hminus])] at hlist
  obtain ⟨hjob, _, hrest⟩ := hlist
  rw [List.append_cancel_left_eq, List.append_cons_inj_of_notMem (hpoint s) (by decide)] at hrest
  exact ⟨toDigits_inj hjob, toDigits_inj hrest.1⟩

theorem notMem_outputName (j segment : Nat) : '/' ∉ (outputName j segment).toList := by
  have hslash : ∀ n, '/' ∉ Nat.toDigits 10 n := notMem_toDigits (by decide)
  simp [toList_outputName, hslash]

/-- The name of an output file is no step to another place. -/
theorem outputName_ne (j segment : Nat) :
    outputName j segment ≠ "" ∧ outputName j segment ≠ "." ∧ outputName j segment ≠ ".." := by
  have hne : ∀ name : String, name.toList.head? ≠ some 'j' → outputName j segment ≠ name := by
    rintro name hhead rfl
    rw [toList_outputName] at hhead
    exact hhead rfl
  exact ⟨hne _ (by decide), hne _ (by decide), hne _ (by decide)⟩

namespace Machine

variable {m m' : Machine} {f : Files} {loc l : Location} {j k s t : Nat} {path : String}

/-- The names of the path `m.outputFile j s`. -/
theorem names_outputFile (m : Machine) (j s : Nat) :
    ∃ before, Path.names (m.outputFile j s) = before ++ [outputName j s] :=
  Path.names_join (notMem_outputName j s)

/-- The path `m.outputFile j s` leads to a location of its name. -/
theorem getLast?_outputFile (h : f.resolve (m.outputFile j s) = .ok loc) :
    loc.getLast? = some (outputName j s) := by
  obtain ⟨before, hnames⟩ := m.names_outputFile j s
  obtain ⟨hempty, hdot, hdots⟩ := outputName_ne j s
  exact Files.getLast?_of_resolve h hnames hempty hdot hdots

/-- The paths of the output files of different segments lead to different locations. -/
theorem resolve_inj (h : f.resolve (m.outputFile j s) = .ok loc)
    (h' : f.resolve (m.outputFile k t) = .ok loc) : j = k ∧ s = t := by
  have hlast := getLast?_outputFile h
  rw [getLast?_outputFile h'] at hlast
  obtain ⟨rfl, rfl⟩ := outputName_inj (Option.some.inj hlast)
  exact ⟨rfl, rfl⟩

theorem resolve_of_places (h : f.Places (m.outputFile j s) loc) :
    f.resolve (m.outputFile j s) = .ok loc := by
  obtain ⟨before, hnames⟩ := m.names_outputFile j s
  exact h.resolve hnames (outputName_ne j s).1

/-- The output files of different segments have different locations. -/
theorem places_inj (h : f.Places (m.outputFile j s) loc) (h' : f.Places (m.outputFile k t) loc) :
    j = k ∧ s = t :=
  resolve_inj (resolve_of_places h) (resolve_of_places h')

/-- The output file of segment `s` of job `j` holds `text`. -/
def Wrote (m : Machine) (j s : Nat) (text : String) : Prop :=
  ∃ loc, m.hardware.files.Places (m.outputFile j s) loc ∧
    m.hardware.files.entry? loc = some (.text text)

theorem Wrote.read {text : String} (h : m.Wrote j s text) :
    m.hardware.files.read (m.outputFile j s) = .ok text := by
  obtain ⟨loc, hplaces, hentry⟩ := h
  obtain ⟨before, hnames⟩ := m.names_outputFile j s
  exact hplaces.read hnames (outputName_ne j s).1 hentry

/-- No device of the system stands where `m` would create an output file. -/
def Regular (m : Machine) : Prop :=
  ∀ j s loc, m.hardware.files.Places (m.outputFile j s) loc →
    m.hardware.files.Plain loc

theorem outputFile_congr (hconfig : m'.config = m.config) :
    m'.outputFile j s = m.outputFile j s := by
  simp only [outputFile, hconfig]

/-- Whether `m` can create output files as files does not depend on the files. -/
theorem Regular.of_alike (h : m.Regular) (hconfig : m'.config = m.config)
    (halike : m.hardware.files.Alike m'.hardware.files) : m'.Regular := by
  intro j s loc hplaces
  rw [outputFile_congr hconfig] at hplaces
  exact halike.plain (h j s loc (halike.symm.places hplaces))

/-- A machine `m` whose tree has no devices is regular. -/
theorem regular_of_entries (h : ∀ pair ∈ m.hardware.files.entries,
    pair.2 = .directory ∨ pair.2 = .bytes ∨ ∃ content, pair.2 = .text content) : m.Regular := by
  intro j s loc hplaces
  obtain ⟨_, _, _, _, _, _, hentry⟩ := Files.places_iff.1 hplaces
  have hfree := Files.isFixed_eq_false hentry
  have hlookup : m.hardware.files.entry? loc = m.hardware.files.entries.lookup loc := by
    unfold Files.entry?
    rw [hfree, if_neg (by decide)]
  cases hentry' : m.hardware.files.entries.lookup loc with
  | none => exact .inl (hlookup.trans hentry')
  | some e =>
    rw [hentry'] at hlookup
    obtain ⟨before, after, hsplit, _⟩ := List.lookup_eq_some_iff.1 hentry'
    rcases h (loc, e) (by simp [hsplit]) with rfl | rfl | ⟨content, rfl⟩
    · exact absurd hlookup hentry
    · exact .inr (.inl hlookup)
    · exact .inr (.inr ⟨content, hlookup⟩)

/-- The output file of segment `s` of job `j` is empty when it is created, and takes text. -/
theorem Regular.entry_create (h : m.Regular) (halike : m.hardware.files.Alike f) {files : Files}
    (hcreate : f.create (m.outputFile j s) = .ok (files, loc)) :
    files.entry? loc = some (.text "") := by
  have hplain : f.Plain loc := halike.plain (h j s loc (halike.symm.places ⟨files, hcreate⟩))
  rcases Files.create_cases hcreate with ⟨hother, _⟩ | ⟨_, rfl⟩
  · exact absurd hplain hother
  · have hfree : Files.isFixed loc = false := Files.isFixed_eq_false fun hdirectory =>
      Files.not_plain_directory hdirectory hplain
    rw [Files.entry_put _ hfree, if_pos rfl]

/-- The sink at the location `loc` of a file of text takes everything. -/
theorem ofFile_of_entry {content : String} (h : f.entry? loc = some (.text content)) :
    Sink.ofFile f loc = ⟨loc, .plain⟩ := by
  unfold Sink.ofFile
  rw [h]

/-- Creating output files changes `m.hardware.files` to `f` in files at most. -/
theorem Opens.alike (h : m.Opens f) : m.hardware.files.Alike f := by
  induction h with
  | refl => exact .refl _
  | create _ _ hcreate ih => exact ih.trans (Files.alike_create hcreate)

/-- Creating output files of next segments leaves the file of an earlier segment `s` alone. -/
theorem Opens.entry_eq (h : m.Opens f) (hplaces : m.hardware.files.Places (m.outputFile j s) loc)
    (hs : s ≤ (m.job j).segments) : f.entry? loc = m.hardware.files.entry? loc := by
  induction h with
  | refl => rfl
  | @create k files files' loc' _ hopens hcreate ih =>
    have hne : loc ≠ loc' := by
      rintro rfl
      obtain ⟨rfl, hsame⟩ := places_inj hplaces (hopens.alike.symm.places ⟨_, hcreate⟩)
      omega
    rw [Files.entry_create hcreate hne, ih]

theorem Opens.wrote (h : m.Opens m'.hardware.files) (hconfig : m'.config = m.config)
    (hs : s ≤ (m.job j).segments) {text : String} (hwrote : m.Wrote j s text) :
    m'.Wrote j s text := by
  obtain ⟨loc, hplaces, hentry⟩ := hwrote
  refine ⟨loc, ?_, (h.entry_eq hplaces hs).trans hentry⟩
  rw [outputFile_congr hconfig]
  exact h.alike.places hplaces

/-- After the output file of segment `s` of job `j` has been created as the last one, it is
empty. -/
theorem Regular.wrote (h : m.Regular) (hconfig : m'.config = m.config) (hopens : m.Opens f)
    (hcreate : f.create (m.outputFile j s) = .ok (m'.hardware.files, loc)) :
    m'.Wrote j s "" ∧ m'.hardware.files.Places (m'.outputFile j s) loc ∧
      Sink.ofFile m'.hardware.files loc = ⟨loc, .plain⟩ := by
  have hentry := h.entry_create hopens.alike hcreate
  have hplaces : m'.hardware.files.Places (m'.outputFile j s) loc := by
    rw [outputFile_congr hconfig]
    exact (Files.alike_create hcreate).places ⟨_, hcreate⟩
  exact ⟨⟨loc, hplaces, hentry⟩, hplaces, ofFile_of_entry hentry⟩

end Machine

end BatchMachine
