import Mathlib.Data.List.TakeWhile
import Mathlib.Order.Basic
import ScriptAnalysis.Command.Switches
import ScriptAnalysis.Proofs.Runs

/-!
# Command lines

A command line is a row of files and flags. A format flag without a value of its own takes the next
word for it, whatever that word is. Behind two dashes alone all words are files. Every row of words
spells one command line and no other, so it is settled which of the words are files. The switches
are read from it argument by argument, up to the first that does not fit.
-/

namespace ScriptAnalysis

/-- The word behind which all words are files. -/
def filesMark : String := "--"

/-- One dash or more, a name, and perhaps a value behind an equals sign. -/
@[ext]
structure Flag where
  dashes : Nat
  name : String
  value : Option String
  dashes_pos : 0 < dashes
  name_dash : name.toList.head? ≠ some '-'
  name_equals : '=' ∉ name.toList
  deriving DecidableEq

namespace Flag

variable {f : Flag}

/-- The value of a flag behind its name. -/
def attached (f : Flag) : List Char :=
  match f.value with
  | none => []
  | some value => '=' :: value.toList

def text (f : Flag) : String :=
  String.ofList (List.replicate f.dashes '-' ++ (f.name.toList ++ f.attached))

/-- The name under which a flag is known. One of them may be written in two ways. -/
def key (f : Flag) : String := if f.name = "werror" then "Werror" else f.name

/-- Whether a flag takes the next word for its value. -/
def Awaits (f : Flag) : Prop := f.name = "format" ∧ f.value = none
  deriving Decidable

theorem key_eq_format_iff : f.key = "format" ↔ f.name = "format" := by
  rw [key]
  split
  · next h => simp [h]
  · rfl

theorem toList_text :
    f.text.toList = List.replicate f.dashes '-' ++ (f.name.toList ++ f.attached) :=
  String.toList_ofList

theorem head?_text : f.text.toList.head? = some '-' := by
  obtain ⟨count, hcount⟩ := Nat.exists_eq_succ_of_ne_zero f.dashes_pos.ne'
  rw [toList_text, hcount, List.replicate_succ]
  rfl

theorem attached_cases : f.value = none ∧ f.attached = [] ∨
    ∃ value, f.value = some value ∧ f.attached = '=' :: value.toList := by
  cases hvalue : f.value with
  | none => exact .inl ⟨rfl, by rw [attached, hvalue]⟩
  | some value => exact .inr ⟨value, rfl, by rw [attached, hvalue]⟩

theorem head?_attached : ∀ c ∈ f.attached.head?, c = '=' := by
  rcases f.attached_cases with ⟨-, h⟩ | ⟨value, -, h⟩
  · simp [h]
  · simp [h]

theorem head?_bare : (f.name.toList ++ f.attached).head? ≠ some '-' := by
  cases hname : f.name.toList with
  | nil =>
    intro hhead
    exact absurd (f.head?_attached '-' hhead) (by decide)
  | cons c cs =>
    have hdash := f.name_dash
    rw [hname] at hdash
    exact hdash

theorem span_dashes :
    f.text.toList.takeWhile (· = '-') = List.replicate f.dashes '-' ∧
      f.text.toList.dropWhile (· = '-') = f.name.toList ++ f.attached := by
  rw [toList_text]
  apply span_append
  · intro c hc
    exact decide_eq_true (List.eq_of_mem_replicate hc)
  · intro c hc
    rw [decide_eq_false_iff_not]
    rintro rfl
    exact f.head?_bare hc

theorem span_name :
    (f.name.toList ++ f.attached).takeWhile (· ≠ '=') = f.name.toList ∧
      (f.name.toList ++ f.attached).dropWhile (· ≠ '=') = f.attached := by
  apply span_append
  · intro c hc
    rw [decide_eq_true_eq]
    rintro rfl
    exact f.name_equals hc
  · intro c hc
    simp [f.head?_attached c hc]

theorem split_text : Switches.split f.text = (f.key, f.value) := by
  simp only [Switches.split, f.span_dashes.2, f.span_name.1, f.span_name.2, String.ofList_toList]
  rcases f.attached_cases with ⟨hvalue, hattached⟩ | ⟨value, hvalue, hattached⟩
  · rw [hvalue, hattached]
    rfl
  · rw [hvalue, hattached]
    simp only [String.ofList_toList]
    rfl

theorem text_injective : Function.Injective text := by
  intro f g h
  have hdashes : f.dashes = g.dashes := by
    have htake := f.span_dashes.1
    rw [h, g.span_dashes.1] at htake
    simpa using congrArg List.length htake.symm
  have hbare : f.name.toList ++ f.attached = g.name.toList ++ g.attached := by
    rw [← f.span_dashes.2, h, g.span_dashes.2]
  have hname : f.name.toList = g.name.toList := by
    rw [← f.span_name.1, hbare, g.span_name.1]
  have hvalue : f.value = g.value := by
    have hsplit : Switches.split f.text = Switches.split g.text := congrArg Switches.split h
    rw [split_text, split_text] at hsplit
    exact congrArg Prod.snd hsplit
  exact Flag.ext hdashes (String.toList_inj.1 hname) hvalue

/-- The flag that a word with a dash in front spells. -/
def ofText (word : String) (h : word.toList.head? = some '-') : Flag where
  dashes := (word.toList.takeWhile (· = '-')).length
  name := String.ofList ((word.toList.dropWhile (· = '-')).takeWhile (· ≠ '='))
  value :=
    match (word.toList.dropWhile (· = '-')).dropWhile (· ≠ '=') with
    | [] => none
    | _ :: value => some (String.ofList value)
  dashes_pos := by
    obtain ⟨rest, hrest⟩ := List.head?_eq_some_iff.1 h
    simp [hrest]
  name_dash := by
    rw [String.toList_ofList, List.head?_takeWhile]
    intro hhead
    have hfirst := head?_dropWhile word.toList '-' (Option.filter_eq_some_iff.1 hhead).1
    simp at hfirst
  name_equals := by
    rw [String.toList_ofList]
    intro hmem
    simpa using List.mem_takeWhile_imp hmem

theorem text_ofText (word : String) (h : word.toList.head? = some '-') :
    (ofText word h).text = word := by
  have hdashes : List.replicate (word.toList.takeWhile (· = '-')).length '-' =
      word.toList.takeWhile (· = '-') := by
    rw [eq_comm, List.eq_replicate_iff]
    refine ⟨rfl, fun c hc ↦ ?_⟩
    simpa using List.mem_takeWhile_imp hc
  have hattached : (ofText word h).attached =
      (word.toList.dropWhile (· = '-')).dropWhile (· ≠ '=') := by
    have hfirst := head?_dropWhile (p := (· ≠ '=')) (word.toList.dropWhile (· = '-'))
    simp only [attached, ofText]
    cases hrest : (word.toList.dropWhile (· = '-')).dropWhile (· ≠ '=') with
    | nil => rfl
    | cons c value =>
      rw [hrest] at hfirst
      have hc : c = '=' := by simpa using hfirst c rfl
      rw [hc]
      exact congrArg ('=' :: ·) String.toList_ofList
  rw [← String.toList_inj, toList_text, hattached]
  simp only [ofText, hdashes, String.toList_ofList, List.takeWhile_append_dropWhile]

theorem ofText_text : ofText f.text f.head?_text = f := text_injective (text_ofText _ _)

theorem Awaits.text_ne (h : f.Awaits) : f.text ≠ filesMark := by
  intro htext
  have hsplit := f.split_text
  rw [htext] at hsplit
  have hkey : f.key = "" := (congrArg Prod.fst hsplit).symm
  rw [key_eq_format_iff.2 h.1] at hkey
  exact absurd hkey (by decide)

end Flag

/-- A file, a flag that is complete in itself, or a flag with the next word for its value. -/
inductive Argument where
  | file (name : String) (hname : name.toList.head? ≠ some '-')
  | flag (f : Flag) (hclosed : ¬ f.Awaits) (hmark : f.text ≠ filesMark)
  | valued (f : Flag) (hopen : f.Awaits) (value : String)
  deriving DecidableEq

/-- How a command line ends: with its last argument, with a flag that still awaits a value, or with
files only. -/
inductive Ending where
  | plain
  | awaiting (f : Flag) (hopen : f.Awaits)
  | files (names : List String)

structure CommandLine where
  arguments : List Argument
  ending : Ending

namespace Argument

def words : Argument → List String
  | file name _ => [name]
  | flag f _ _ => [f.text]
  | valued f _ value => [f.text, value]

def file? : Argument → Option String
  | file name _ => some name
  | flag _ _ _ => none
  | valued _ _ _ => none

/-- Whether an argument is a file, an allowed flag without a value, or the format, if that is
allowed, as one of its names. -/
def Fits (allowed : List String) : Argument → Prop
  | file _ _ => True
  | flag f _ _ =>
    f.key ∈ allowed ∧
      if f.name = "format" then ∃ format : Format, f.value = some format.name else f.value = none
  | valued f _ value => f.key ∈ allowed ∧ ∃ format : Format, value = format.name

end Argument

namespace Ending

def words : Ending → List String
  | plain => []
  | awaiting f _ => [f.text]
  | files names => filesMark :: names

def names : Ending → List String
  | plain => []
  | awaiting _ _ => []
  | files names => names

/-- Whether no flag is left without its value. -/
def Fits : Ending → Prop
  | plain => True
  | awaiting _ _ => False
  | files _ => True

end Ending

namespace CommandLine

def words (line : CommandLine) : List String :=
  line.arguments.flatMap Argument.words ++ line.ending.words

/-- The files before the two dashes. -/
def filesBefore (line : CommandLine) : List String := line.arguments.filterMap Argument.file?

def files (line : CommandLine) : List String := line.filesBefore ++ line.ending.names

def Fits (allowed : List String) (line : CommandLine) : Prop :=
  (∀ a ∈ line.arguments, a.Fits allowed) ∧ line.ending.Fits

def cons (a : Argument) (line : CommandLine) : CommandLine := ⟨a :: line.arguments, line.ending⟩

theorem words_cons (a : Argument) (line : CommandLine) :
    (line.cons a).words = a.words ++ line.words := by
  rw [words, cons, List.flatMap_cons, List.append_assoc]
  rfl

theorem fits_cons {allowed : List String} {a : Argument} {line : CommandLine} :
    (line.cons a).Fits allowed ↔ a.Fits allowed ∧ line.Fits allowed := by
  rw [Fits, Fits, cons, List.forall_mem_cons, and_assoc]

theorem filesBefore_cons (a : Argument) (line : CommandLine) :
    (line.cons a).filesBefore = a.file?.toList ++ line.filesBefore := by
  rw [filesBefore, cons, List.filterMap_cons]
  cases a.file? <;> rfl

theorem files_cons (a : Argument) (line : CommandLine) :
    (line.cons a).files = a.file?.toList ++ line.files := by
  rw [files, filesBefore_cons, List.append_assoc]
  rfl

/-- What holds of every ending and holds with one more argument in front, holds of every line. -/
@[elab_as_elim]
theorem induction {motive : CommandLine → Prop} (nil : ∀ ending, motive ⟨[], ending⟩)
    (cons : ∀ a line, motive line → motive (line.cons a)) (line : CommandLine) : motive line := by
  obtain ⟨arguments, ending⟩ := line
  induction arguments with
  | nil => exact nil ending
  | cons a arguments ih => exact cons a ⟨arguments, ending⟩ ih

/-- The command line that some words spell. -/
def ofWords : List String → CommandLine
  | [] => ⟨[], .plain⟩
  | word :: rest =>
    if hmark : word = filesMark then ⟨[], .files rest⟩
    else if hdash : word.toList.head? = some '-' then
      if hopen : (Flag.ofText word hdash).Awaits then
        match rest with
        | [] => ⟨[], .awaiting (Flag.ofText word hdash) hopen⟩
        | value :: rest => (ofWords rest).cons (.valued (Flag.ofText word hdash) hopen value)
      else
        (ofWords rest).cons
          (.flag (Flag.ofText word hdash) hopen (by rwa [Flag.text_ofText]))
    else (ofWords rest).cons (.file word hdash)

theorem words_ofWords (words : List String) : (ofWords words).words = words := by
  fun_induction ofWords words with
  | case1 => rfl
  | case2 rest => rfl
  | case3 word hmark hdash hopen =>
    change [(Flag.ofText word hdash).text] = _
    rw [Flag.text_ofText]
  | case4 word hmark hdash hopen value rest ih =>
    rw [words_cons, ih]
    change [(Flag.ofText word hdash).text, value] ++ rest = _
    rw [Flag.text_ofText]
    rfl
  | case5 word rest hmark hdash hopen ih =>
    rw [words_cons, ih]
    change [(Flag.ofText word hdash).text] ++ rest = _
    rw [Flag.text_ofText]
    rfl
  | case6 word rest hmark hdash ih =>
    rw [words_cons, ih]
    rfl

theorem ofWords_file {name : String} (hname : name.toList.head? ≠ some '-') (rest : List String) :
    ofWords (name :: rest) = (ofWords rest).cons (.file name hname) := by
  have hmark : name ≠ filesMark := by
    rintro rfl
    exact hname rfl
  rw [ofWords, dif_neg hmark, dif_neg hname]

theorem ofWords_flag {f : Flag} (hclosed : ¬ f.Awaits) (hmark : f.text ≠ filesMark)
    (rest : List String) :
    ofWords (f.text :: rest) = (ofWords rest).cons (.flag f hclosed hmark) := by
  rw [ofWords, dif_neg hmark, dif_pos f.head?_text]
  simp only [f.ofText_text, dif_neg hclosed]

theorem ofWords_valued {f : Flag} (hopen : f.Awaits) (value : String) (rest : List String) :
    ofWords (f.text :: value :: rest) = (ofWords rest).cons (.valued f hopen value) := by
  rw [ofWords, dif_neg hopen.text_ne, dif_pos f.head?_text]
  simp only [f.ofText_text, dif_pos hopen]

theorem ofWords_awaiting {f : Flag} (hopen : f.Awaits) :
    ofWords [f.text] = ⟨[], .awaiting f hopen⟩ := by
  rw [ofWords, dif_neg hopen.text_ne, dif_pos f.head?_text]
  simp only [f.ofText_text, dif_pos hopen]

theorem ofWords_words (line : CommandLine) : ofWords line.words = line := by
  induction line using CommandLine.induction with
  | nil ending =>
    cases ending with
    | plain => rfl
    | awaiting f hopen => exact ofWords_awaiting hopen
    | files names => rw [words, List.flatMap_nil, List.nil_append, Ending.words, ofWords, dif_pos rfl]
  | cons a line ih =>
    rw [words_cons]
    cases a with
    | file name hname =>
      rw [Argument.words, List.singleton_append, ofWords_file hname, ih]
    | flag f hclosed hmark =>
      rw [Argument.words, List.singleton_append, ofWords_flag hclosed hmark, ih]
    | valued f hopen value =>
      rw [Argument.words, List.cons_append, List.singleton_append, ofWords_valued hopen, ih]

theorem words_bijective : Function.Bijective words :=
  ⟨Function.LeftInverse.injective ofWords_words, Function.RightInverse.surjective words_ofWords⟩

end CommandLine

/-! ## Reading argument by argument -/

theorem Format.ofName?_eq_some_iff {value : String} {format : Format} :
    Format.ofName? value = some format ↔ value = format.name := by
  constructor
  · intro h
    unfold ofName? at h
    split at h
    · cases h
      rfl
    · cases h
      rfl
    · cases h
  · rintro rfl
    cases format <;> rfl

theorem Format.ofName?_eq_none_iff {value : String} :
    Format.ofName? value = none ↔ ¬ ∃ format : Format, value = format.name := by
  rw [Option.eq_none_iff_forall_ne_some, not_exists]
  exact forall_congr' fun format ↦ not_congr ofName?_eq_some_iff

namespace Argument

/-- The switches after an argument. -/
def set (s : Switches) : Argument → Switches
  | file name _ => { s with file := name }
  | flag f _ _ =>
    match f.value with
    | some value => { s with format := (Format.ofName? value).getD s.format }
    | none => s.turnOn f.key
  | valued _ _ value => { s with format := (Format.ofName? value).getD s.format }

/-- Whether an argument is read where some switches were read before. A file is read where none
was, or one without a name. -/
structure Continues (allowed : List String) (s : Switches) (a : Argument) : Prop where
  fits : a.Fits allowed
  file : ∀ name ∈ a.file?, s.file = ""

end Argument

namespace Switches

variable {allowed : List String} {s : Switches} {f : Flag}

theorem read_file {name : String} (hname : name.toList.head? ≠ some '-') (rest : List String) :
    read allowed s (name :: rest) =
      if s.file = "" then read allowed { s with file := name } rest else .error s := by
  have hmark : name ≠ "--" := by
    rintro rfl
    exact hname rfl
  rw [read, if_neg hmark, if_pos hname]

/-- Goes on with the format of a name, if there is one. -/
def readFormat (allowed : List String) (s : Switches) (value : String) (rest : List String) :
    Except Switches Switches :=
  match Format.ofName? value with
  | some format => read allowed { s with format := format } rest
  | none => .error s

theorem read_text (hmark : f.text ≠ filesMark) (rest : List String) :
    read allowed s (f.text :: rest) =
      if f.key ∉ allowed then .error s
      else if f.name = "format" then
        match f.value, rest with
        | some value, rest => readFormat allowed s value rest
        | none, [] => .error s
        | none, value :: rest => readFormat allowed s value rest
      else if f.value = none then read allowed (s.turnOn f.key) rest
      else .error s := by
  have hdash := f.head?_text
  rw [filesMark] at hmark
  rw [read, if_neg hmark, if_neg (not_not.2 hdash)]
  simp only [f.split_text, Flag.key_eq_format_iff]
  split
  · rfl
  split
  · cases f.value with
    | none => cases rest <;> rfl
    | some value => rfl
  · cases f.value <;> rfl

open scoped Classical in
theorem readFormat_eq (value : String) (rest : List String) :
    readFormat allowed s value rest =
      if ∃ format : Format, value = format.name then
        read allowed { s with format := (Format.ofName? value).getD s.format } rest
      else .error s := by
  rw [readFormat]
  cases hformat : Format.ofName? value with
  | none => rw [if_neg (Format.ofName?_eq_none_iff.1 hformat)]
  | some format => rw [if_pos ⟨format, Format.ofName?_eq_some_iff.1 hformat⟩, Option.getD_some]

open scoped Classical in
/-- An argument is read, or the reading fails at it. -/
theorem read_words (a : Argument) (rest : List String) :
    read allowed s (a.words ++ rest) =
      if a.Continues allowed s then read allowed (a.set s) rest else .error s := by
  cases a with
  | file name hname =>
    have hcontinues : (Argument.file name hname).Continues allowed s ↔ s.file = "" :=
      ⟨fun h ↦ h.file name rfl, fun h ↦ ⟨trivial, fun _ _ ↦ h⟩⟩
    rw [Argument.words, List.singleton_append, read_file hname]
    simp only [hcontinues]
    rfl
  | flag f hclosed hmark =>
    have hcontinues : (Argument.flag f hclosed hmark).Continues allowed s ↔
        (Argument.flag f hclosed hmark).Fits allowed :=
      ⟨fun h ↦ h.fits, fun h ↦ ⟨h, by rintro _ ⟨⟩⟩⟩
    rw [Argument.words, List.singleton_append, read_text hmark]
    simp only [hcontinues, Argument.Fits, Argument.set]
    by_cases hkey : f.key ∈ allowed
    · by_cases hname : f.name = "format"
      · cases hvalue : f.value with
        | none => exact absurd ⟨hname, hvalue⟩ hclosed
        | some value => simp [hkey, hname, readFormat_eq]
      · cases hvalue : f.value with
        | none => simp [hkey, hname]
        | some value => simp [hkey, hname]
    · simp [hkey]
  | valued f hopen value =>
    have hcontinues : (Argument.valued f hopen value).Continues allowed s ↔
        f.key ∈ allowed ∧ ∃ format : Format, value = format.name :=
      ⟨fun h ↦ h.fits, fun h ↦ ⟨h, by rintro _ ⟨⟩⟩⟩
    rw [Argument.words, List.cons_append, List.singleton_append, read_text hopen.text_ne,
      if_pos hopen.1]
    simp only [hopen.2, hcontinues, readFormat_eq]
    by_cases hkey : f.key ∈ allowed
    · simp [hkey, Argument.set]
    · simp [hkey]

theorem read_awaiting (hopen : f.Awaits) : read allowed s [f.text] = .error s := by
  rw [read_text hopen.text_ne, if_pos hopen.1, hopen.2]
  simp

end Switches

end ScriptAnalysis
