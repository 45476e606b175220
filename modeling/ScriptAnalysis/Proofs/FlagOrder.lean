import ScriptAnalysis.Proofs.CommandLines

/-!
# Flags in any order

Flags may stand before and behind the file, and their order does not matter but for that of the
formats, of which the last counts. What is read is told by the file, the formats in their order and
the set of switches that are named.
-/

namespace ScriptAnalysis

namespace Argument

/-- The format that an argument gives. -/
def format? : Argument → Option Format
  | file _ _ => none
  | flag f _ _ => if f.name = "format" then f.value.bind Format.ofName? else none
  | valued _ _ value => Format.ofName? value

def isFormat (a : Argument) : Bool := a.format?.isSome

/-- The name of the switch that an argument turns on. -/
def switch? : Argument → Option String
  | file _ _ => none
  | flag f _ _ => if f.name = "format" then none else some f.key
  | valued _ _ _ => none

end Argument

namespace Switches

/-- The switches with those of some flags. -/
def including (s : Switches) (items : List Argument) : Switches where
  file := s.file
  format := (items.filterMap Argument.format?).getLastD s.format
  pretty := s.pretty || "pretty" ∈ items.filterMap Argument.switch?
  noParen := s.noParen || "no-paren-errors" ∈ items.filterMap Argument.switch?
  noWarn := s.noWarn || "no-warnings" ∈ items.filterMap Argument.switch?
  werror := s.werror || "Werror" ∈ items.filterMap Argument.switch?
  verbose := s.verbose || "verbose" ∈ items.filterMap Argument.switch?

variable {allowed : List String} {s : Switches} {items : List Argument}

theorem including_nil : s.including [] = s := by
  simp [including]

theorem turnOn_eq (key : String) :
    s.turnOn key =
      { s with
        pretty := s.pretty || key = "pretty"
        noParen := s.noParen || key = "no-paren-errors"
        noWarn := s.noWarn || key = "no-warnings"
        werror := s.werror || key = "Werror"
        verbose := s.verbose || key = "verbose" } := by
  unfold turnOn
  split
  · simp
  · simp
  · simp
  · simp
  · simp
  · next hpretty hparen hwarn hwerror hverbose =>
    rw [decide_eq_false hpretty, decide_eq_false hparen, decide_eq_false hwarn,
      decide_eq_false hwerror, decide_eq_false hverbose]
    simp only [Bool.or_false]

/-- A format counts unless another follows. -/
theorem including_format {a : Argument} {format : Format} (hformat : a.format? = some format)
    (hswitch : a.switch? = none) :
    ({ s with format := format } : Switches).including items = s.including (a :: items) := by
  simp only [including, List.filterMap_cons, hformat, hswitch, List.getLastD_cons]

theorem including_switch {a : Argument} {key : String} (hformat : a.format? = none)
    (hswitch : a.switch? = some key) :
    (s.turnOn key).including items = s.including (a :: items) := by
  simp [including, turnOn_eq, hformat, hswitch, Bool.or_assoc, eq_comm]

theorem including_set {a : Argument} (hflag : a.file? = none) (hfits : a.Fits allowed) :
    (a.set s).including items = s.including (a :: items) := by
  cases a with
  | file => cases hflag
  | flag f hclosed hmark =>
    have hvalue := hfits.2
    by_cases hname : f.name = "format"
    · rw [if_pos hname] at hvalue
      obtain ⟨format, hvalue⟩ := hvalue
      have hformat : (Argument.flag f hclosed hmark).format? = some format := by
        rw [Argument.format?, if_pos hname, hvalue]
        exact Format.ofName?_eq_some_iff.2 rfl
      have hset : (Argument.flag f hclosed hmark).set s = { s with format := format } := by
        simp only [Argument.set, hvalue, Format.ofName?_eq_some_iff.2 rfl, Option.getD_some]
      rw [hset, including_format hformat]
      rw [Argument.switch?, if_pos hname]
    · rw [if_neg hname] at hvalue
      have hset : (Argument.flag f hclosed hmark).set s = s.turnOn f.key := by
        simp only [Argument.set, hvalue]
      rw [hset, including_switch]
      · rw [Argument.format?, if_neg hname]
      · rw [Argument.switch?, if_neg hname]
  | valued f hopen value =>
    obtain ⟨format, rfl⟩ := hfits.2
    have hformat : (Argument.valued f hopen format.name).format? = some format :=
      Format.ofName?_eq_some_iff.2 rfl
    have hset : (Argument.valued f hopen format.name).set s = { s with format := format } := by
      simp only [Argument.set, Format.ofName?_eq_some_iff.2 rfl, Option.getD_some]
    rw [hset, including_format hformat rfl]

/-- Flags that fit are read one after the other. -/
theorem read_flags (hitems : ∀ a ∈ items, a.file? = none ∧ a.Fits allowed) (s : Switches)
    (rest : List String) :
    read allowed s (items.flatMap Argument.words ++ rest) =
      read allowed (s.including items) rest := by
  induction items generalizing s with
  | nil => rw [List.flatMap_nil, List.nil_append, including_nil]
  | cons a items ih =>
    rw [List.forall_mem_cons] at hitems
    have hcontinues : a.Continues allowed s := by
      refine ⟨hitems.1.2, ?_⟩
      rw [hitems.1.1]
      exact fun name hname ↦ absurd hname (Option.not_mem_none name)
    rw [List.flatMap_cons, List.append_assoc, read_words, if_pos hcontinues, ih hitems.2,
      including_set hitems.1.1 hitems.1.2]

theorem including_append (s : Switches) (items others : List Argument) :
    (s.including items).including others = s.including (items ++ others) := by
  simp only [including, List.filterMap_append, List.mem_append, Bool.decide_or, Bool.or_assoc,
    List.getLastD_eq_getLast?, List.getLast?_append, Option.getD_or]

/-- Only the order of the formats matters. -/
theorem including_of_perm {others : List Argument} (hperm : others.Perm items)
    (hformats : others.filter Argument.isFormat = items.filter Argument.isFormat) :
    s.including others = s.including items := by
  have hgiven (l : List Argument) :
      (l.filter Argument.isFormat).filterMap Argument.format? = l.filterMap Argument.format? := by
    rw [List.filterMap_filter]
    apply List.filterMap_congr
    intro a _
    rw [Argument.isFormat]
    cases a.format? <;> rfl
  have hlast : others.filterMap Argument.format? = items.filterMap Argument.format? := by
    rw [← hgiven, hformats, hgiven]
  have hnamed (key : String) :
      key ∈ others.filterMap Argument.switch? ↔ key ∈ items.filterMap Argument.switch? :=
    (hperm.filterMap Argument.switch?).mem_iff
  simp only [including, hlast, hnamed]

end Switches

/-- Flags that fit and a file are read with success, wherever the file stands among them and
whatever their order, and what is read depends only on the file, the flags there are, and the order
of the formats. -/
theorem flags_in_any_order {allowed : List String} {items before after : List Argument}
    {file : String} (hitems : ∀ a ∈ items, a.file? = none ∧ a.Fits allowed) (hname : file ≠ "")
    (hfile : file.toList.head? ≠ some '-') (hperm : (before ++ after).Perm items)
    (hformats : (before ++ after).filter Argument.isFormat = items.filter Argument.isFormat) :
    Switches.parse allowed
        (before.flatMap Argument.words ++ file :: after.flatMap Argument.words) =
      .ok { Switches.initial.including items with file := file } := by
  have hboth : ∀ a ∈ before ++ after, a.file? = none ∧ a.Fits allowed := fun a ha ↦
    hitems a (hperm.mem_iff.1 ha)
  rw [List.forall_mem_append] at hboth
  let s : Switches := { Switches.initial.including before with file := file }
  have hfinish : Switches.read allowed (s.including after) [] = .ok (s.including after) := by
    have hnamed : (s.including after).file ≠ "" := hname
    rw [Switches.read, Switches.finish]
    simp only [if_neg hnamed]
  calc
    _ = Switches.read allowed (Switches.initial.including before)
        (file :: after.flatMap Argument.words) := Switches.read_flags hboth.1 _ _
    _ = Switches.read allowed s (after.flatMap Argument.words ++ []) := by
      have hnone : (Switches.initial.including before).file = "" := rfl
      rw [Switches.read_file hfile, if_pos hnone, List.append_nil]
    _ = Switches.read allowed (s.including after) [] := Switches.read_flags hboth.2 _ _
    _ = .ok (s.including after) := hfinish
    _ = .ok { Switches.initial.including (before ++ after) with file := file } := by
      rw [← Switches.including_append]
      rfl
    _ = _ := by rw [Switches.including_of_perm hperm hformats]

/-- Two formats, one of them with a word of its own, and two switches around a file. The second
format counts, though the flags were listed in another order. -/
theorem flags_in_any_order_formats :
    ∃ json text werror pretty : Argument,
      json.words = ["--format", "json"] ∧ text.words = ["-format=text"] ∧
      werror.words = ["--werror"] ∧ pretty.words = ["---pretty"] ∧
      (∀ a ∈ [werror, json, pretty, text],
        a.file? = none ∧ a.Fits ["format", "pretty", "Werror"]) ∧
      ([json, pretty] ++ [text, werror]).Perm [werror, json, pretty, text] ∧
      ([json, pretty] ++ [text, werror]).filter Argument.isFormat =
        [werror, json, pretty, text].filter Argument.isFormat ∧
      Switches.parse ["format", "pretty", "Werror"]
          ["--format", "json", "---pretty", "a.nim", "-format=text", "--werror"] =
        .ok ⟨"a.nim", .text, true, false, false, true, false⟩ := by
  let json : Argument :=
    .valued ⟨2, "format", none, by decide, by decide, by decide⟩ (by decide) "json"
  let text : Argument :=
    .flag ⟨1, "format", some "text", by decide, by decide, by decide⟩ (by decide) (by decide)
  let werror : Argument :=
    .flag ⟨2, "werror", none, by decide, by decide, by decide⟩ (by decide) (by decide)
  let pretty : Argument :=
    .flag ⟨3, "pretty", none, by decide, by decide, by decide⟩ (by decide) (by decide)
  have hitems : ∀ a ∈ [werror, json, pretty, text],
      a.file? = none ∧ a.Fits ["format", "pretty", "Werror"] := by
    have hjson : json.Fits ["format", "pretty", "Werror"] := ⟨by decide, .json, rfl⟩
    have htext : text.Fits ["format", "pretty", "Werror"] := ⟨by decide, .text, rfl⟩
    have hwerror : werror.Fits ["format", "pretty", "Werror"] := ⟨by decide, rfl⟩
    have hpretty : pretty.Fits ["format", "pretty", "Werror"] := ⟨by decide, rfl⟩
    simp only [List.forall_mem_cons]
    exact ⟨⟨rfl, hwerror⟩, ⟨rfl, hjson⟩, ⟨rfl, hpretty⟩, ⟨rfl, htext⟩, List.forall_mem_nil _⟩
  have hperm : ([json, pretty] ++ [text, werror]).Perm [werror, json, pretty, text] := by decide
  have hformats : ([json, pretty] ++ [text, werror]).filter Argument.isFormat =
      [werror, json, pretty, text].filter Argument.isFormat := by decide
  refine ⟨json, text, werror, pretty, by decide, by decide, by decide, by decide, hitems, hperm,
    hformats, ?_⟩
  have hread := flags_in_any_order hitems (by decide : "a.nim" ≠ "") (by decide) hperm hformats
  have hwords : [json, pretty].flatMap Argument.words ++
      "a.nim" :: [text, werror].flatMap Argument.words =
        ["--format", "json", "---pretty", "a.nim", "-format=text", "--werror"] := by decide
  have hswitches : { Switches.initial.including [werror, json, pretty, text] with
      file := "a.nim" } = (⟨"a.nim", .text, true, false, false, true, false⟩ : Switches) := by decide
  rw [hwords, hswitches] at hread
  exact hread

end ScriptAnalysis
