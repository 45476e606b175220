import ScriptAnalysis.Proofs.CommandLines

/-!
# The file of a command line

The reading of a command line succeeds if all flags fit and it finds a file. It takes the first file
with a name. Of the files before the two dashes none may follow that one, but those behind the
dashes are not looked at once there is one, and files without a name are passed over.
-/

namespace ScriptAnalysis

namespace Switches

variable {allowed : List String} {s : Switches} {name : String}

/-- The first of some files that has a name. -/
def firstNamed (files : List String) : Option String := files.find? (· ≠ "")

theorem firstNamed_cons (file : String) (files : List String) :
    firstNamed (file :: files) = if file = "" then firstNamed files else some file := by
  by_cases hfile : file = ""
  · simp [firstNamed, hfile]
  · simp [firstNamed, hfile]

theorem ne_empty_of_firstNamed {files : List String} (h : firstNamed files = some name) :
    name ≠ "" := by
  simpa using List.find?_some h

/-- Whether a reading succeeds with a file. -/
def Finds (name : String) (reading : Except Switches Switches) : Prop :=
  ∃ s, reading = .ok s ∧ s.file = name

theorem not_finds_error : ¬ Finds name (.error s) := by
  rintro ⟨_, ⟨⟩, _⟩

theorem finds_finish_iff {rest : List String} :
    Finds name (s.finish rest) ↔ firstNamed (s.file :: rest) = some name := by
  rw [firstNamed_cons, finish]
  by_cases hfile : s.file = ""
  · rw [if_pos hfile, if_pos hfile]
    cases hrest : firstNamed rest with
    | none =>
      rw [firstNamed] at hrest
      simp only [hrest, Option.getD_none, if_true]
      simp [not_finds_error]
    | some first =>
      have hfirst := ne_empty_of_firstNamed hrest
      rw [firstNamed] at hrest
      simp only [hrest, Option.getD_some, if_neg hfirst]
      simp [Finds]
  · simp [hfile, Finds]

theorem file_turnOn (key : String) : (s.turnOn key).file = s.file := by
  unfold turnOn
  split <;> rfl

theorem file_set (a : Argument) : (a.set s).file = a.file?.getD s.file := by
  cases a with
  | file => rfl
  | flag f =>
    rw [Argument.set]
    split
    · rfl
    · exact file_turnOn _
  | valued => rfl

theorem finds_read_ending_iff (ending : Ending) :
    Finds name (read allowed s ending.words) ↔
      ending.Fits ∧ firstNamed (s.file :: ending.names) = some name := by
  cases ending with
  | plain =>
    rw [Ending.words, read, finds_finish_iff]
    exact (and_iff_right trivial).symm
  | awaiting f hopen =>
    rw [Ending.words, read_awaiting hopen]
    exact iff_of_false not_finds_error fun h ↦ h.1
  | files names =>
    rw [Ending.words, filesMark, read, if_pos rfl, finds_finish_iff]
    exact (and_iff_right trivial).symm

/-- What a command line must be like where a file may have been read before it. -/
theorem finds_read_iff (line : CommandLine) (s : Switches) :
    Finds name (read allowed s line.words) ↔
      line.Fits allowed ∧ (∀ file ∈ (s.file :: line.filesBefore).dropLast, file = "") ∧
        firstNamed (s.file :: line.files) = some name := by
  induction line using CommandLine.induction generalizing s with
  | nil ending =>
    have hwords : CommandLine.words ⟨[], ending⟩ = ending.words := rfl
    rw [hwords, finds_read_ending_iff]
    simp [CommandLine.Fits, CommandLine.files, CommandLine.filesBefore]
  | cons a line ih =>
    rw [CommandLine.words_cons, read_words, CommandLine.fits_cons, CommandLine.filesBefore_cons,
      CommandLine.files_cons]
    by_cases hcontinues : a.Continues allowed s
    · rw [if_pos hcontinues, ih, file_set]
      have hfits := hcontinues.fits
      cases hfile : a.file? with
      | none => simp [hfits]
      | some file =>
        -- The file read before has no name, so it neither stops the reading nor is it found.
        have hnone := hcontinues.file file hfile
        simp [hfits, hnone, firstNamed_cons]
    · rw [if_neg hcontinues]
      refine iff_of_false not_finds_error fun h ↦ hcontinues ⟨h.1.1, fun file hfile ↦ h.2.1 _ ?_⟩
      rw [Option.mem_def.1 hfile]
      exact List.mem_cons_self

/-- Whether a file is found while others are passed over: it is the first of several with a name, and
before the two dashes no other follows it. -/
structure PassesOver (line : CommandLine) (name : String) : Prop where
  several : 2 ≤ line.files.length
  before : ∀ file ∈ line.filesBefore.dropLast, file = ""
  first : firstNamed line.files = some name

theorem finds_parse_iff (line : CommandLine) :
    Finds name (parse allowed line.words) ↔
      line.Fits allowed ∧ (∀ file ∈ line.filesBefore.dropLast, file = "") ∧
        firstNamed line.files = some name := by
  have hbefore : (∀ file ∈ ("" :: line.filesBefore).dropLast, file = "") ↔
      ∀ file ∈ line.filesBefore.dropLast, file = "" := by
    cases line.filesBefore <;> simp
  have hfiles : firstNamed ("" :: line.files) = firstNamed line.files := by
    rw [firstNamed_cons, if_pos rfl]
  rw [← hbefore, ← hfiles]
  exact finds_read_iff line initial

/-- A single file is found if it has a name. -/
theorem finds_single_iff {line : CommandLine} {file : String} (h : line.files = [file]) :
    (∀ file ∈ line.filesBefore.dropLast, file = "") ∧ firstNamed line.files = some name ↔
      file = name ∧ name ≠ "" := by
  have hshort : line.filesBefore.dropLast = [] := by
    have hlength := congrArg List.length h
    rw [CommandLine.files, List.length_append, List.length_singleton] at hlength
    rw [← List.length_eq_zero_iff, List.length_dropLast]
    omega
  rw [hshort, h, firstNamed_cons]
  by_cases hfile : file = ""
  · rw [if_pos hfile]
    exact iff_of_false (fun h ↦ Option.some_ne_none _ h.2.symm) fun h ↦ h.2 (h.1.symm.trans hfile)
  · rw [if_neg hfile, Option.some_inj]
    exact ⟨fun h ↦ ⟨h.2, h.2 ▸ hfile⟩, fun h ↦ ⟨List.forall_mem_nil _, h.1⟩⟩

/-- The file that is found is the only one, or others are passed over. -/
theorem finds_parse_iff_or (line : CommandLine) :
    Finds name (parse allowed line.words) ↔
      line.Fits allowed ∧ (line.files = [name] ∧ name ≠ "" ∨ PassesOver line name) := by
  refine (finds_parse_iff line).trans (and_congr_right fun _ ↦ ?_)
  have hfew (hlength : line.files.length < 2) : ¬ PassesOver line name := fun h ↦
    absurd h.several (Nat.not_le_of_lt hlength)
  cases hfiles : line.files with
  | nil => simp [hfew (by simp [hfiles]), firstNamed]
  | cons first more =>
    cases more with
    | nil =>
      rw [← hfiles, finds_single_iff hfiles, hfiles]
      simp [hfew (by simp [hfiles])]
    | cons second more =>
      have hseveral : 2 ≤ line.files.length := by simp [hfiles]
      rw [← hfiles]
      constructor
      · intro h
        exact .inr ⟨hseveral, h.1, h.2⟩
      · intro h
        rcases h with h | h
        · rw [h.1, List.length_singleton] at hseveral
          omega
        · exact ⟨h.before, h.first⟩

end Switches

/-- Some words spell one command line. They are read with success and with a certain file in two
cases only: the flags fit, and this is the one file of the line and has a name; or the flags fit, and
other files are passed over. So one file is asked for exactly where none are passed over. -/
theorem file_of_command_line (allowed words : List String) :
    ∃ line : CommandLine, line.words = words ∧
      (∀ other : CommandLine, other.words = words → other = line) ∧
      (∀ name, Switches.Finds name (Switches.parse allowed words) ↔
        line.Fits allowed ∧
          (line.files = [name] ∧ name ≠ "" ∨ Switches.PassesOver line name)) ∧
      ((∀ name, Switches.Finds name (Switches.parse allowed words) ↔
          line.Fits allowed ∧ line.files = [name] ∧ name ≠ "") ↔
        ¬ (line.Fits allowed ∧ ∃ name, Switches.PassesOver line name)) := by
  obtain ⟨line, rfl⟩ := CommandLine.words_bijective.surjective words
  refine ⟨line, rfl, fun other h ↦ CommandLine.words_bijective.injective h,
    fun name ↦ Switches.finds_parse_iff_or line, ?_⟩
  simp only [Switches.finds_parse_iff_or]
  constructor
  · rintro h ⟨hfits, name, hpasses⟩
    have hseveral := hpasses.several
    rw [((h name).1 ⟨hfits, .inr hpasses⟩).2.1, List.length_singleton] at hseveral
    omega
  · intro h name
    refine and_congr_right fun hfits ↦ or_iff_left fun hpasses ↦ h ⟨hfits, name, hpasses⟩

/-- A file behind the two dashes is dropped if there is one before them. -/
theorem second_file_dropped :
    ∃ line : CommandLine, line.words = ["a.nim", "--", "b.nim"] ∧ line.Fits [] ∧
      line.files = ["a.nim", "b.nim"] ∧
      ∃ s, Switches.parse [] line.words = .ok s ∧ s.file = "a.nim" := by
  refine ⟨⟨[.file "a.nim" (by decide)], .files ["b.nim"]⟩, rfl, ?_, rfl, ?_⟩
  · simp [CommandLine.Fits, Argument.Fits, Ending.Fits]
  · exact ⟨{ Switches.initial with file := "a.nim" }, by decide, rfl⟩

end ScriptAnalysis
