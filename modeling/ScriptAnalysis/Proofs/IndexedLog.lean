import Mathlib.Algebra.BigOperators.Group.List.Basic
import ScriptAnalysis.Proofs.LogKeys
import Std.Data.HashMap

/-!
# A log that is indexed by lines

The entries of a log can be kept in a map of lines. Each line has a map of its entries by their
texts, beside it the list of the texts in the order in which they first came, and a counter tells
how many entries there are. Nothing makes these parts agree but the way entries are added: a text
without an entry would be a fault, and maps may be gone through in any order. What is added to such
a log leaves it coherent, and it gives the same answers as the plain list of entries.
-/

namespace ScriptAnalysis

/-- The entries of one line, by their texts, and the texts in the order of their first entries. -/
structure LineEntries where
  order : List String
  bySource : Std.HashMap String Entry

namespace LineEntries

def empty : LineEntries := ⟨[], ∅⟩

/-- Keeps an entry under its text. A text that is new goes behind the others. -/
def put (found : LineEntries) (e : Entry) : LineEntries :=
  ⟨if e.source ∈ found.bySource then found.order else found.order ++ [e.source],
    found.bySource.insert e.source e⟩

/-- The entries in order; nothing if a text has no entry. -/
def entries? (found : LineEntries) : Option (List Entry) := found.order.mapM (found.bySource[·]?)

end LineEntries

structure IndexedLog where
  lines : Std.HashMap Int LineEntries
  total : Nat

namespace IndexedLog

/-- An order in which maps are gone through. It may be any, and another one on each line. -/
structure Order where
  lines : Std.HashMap Int LineEntries → List (Int × LineEntries)
  sources : Int → Std.HashMap String Entry → List (String × Entry)
  perm_lines (m : Std.HashMap Int LineEntries) : (lines m).Perm m.toList
  perm_sources (line : Int) (m : Std.HashMap String Entry) : (sources line m).Perm m.toList

instance : Inhabited Order :=
  ⟨⟨fun m ↦ m.toList, fun _ m ↦ m.toList, fun _ ↦ .refl _, fun _ _ ↦ .refl _⟩⟩

def empty : IndexedLog := ⟨∅, 0⟩

variable (log : IndexedLog)

/-- What is kept of a line, which is nothing at first. -/
def onLine (line : Int) : LineEntries := log.lines.getD line .empty

def add (e : Entry) : IndexedLog :=
  let found := log.onLine e.line
  ⟨log.lines.insert e.line (found.put e),
    if e.source ∈ found.bySource then log.total else log.total + 1⟩

def ofAdds (adds : List Entry) : IndexedLog := adds.foldl add .empty

def isEmpty : Bool := log.total = 0

def includesExactly (category : Category) (line : Int) (source : String) : Bool :=
  log.lines[line]?.any fun found ↦ found.bySource[source]?.any (·.category = category)

def includesOnLine (order : Order) (category : Category) (line : Int) : Bool :=
  log.lines[line]?.any fun found ↦
    (order.sources line found.bySource).any (·.2.category = category)

def countOf (order : Order) (category : Category) : Nat :=
  ((order.lines log.lines).map fun p ↦
    (order.sources p.1 p.2.bySource).countP (·.2.category = category)).sum

def lineNumbers (order : Order) : List Int :=
  Ordered.sort (· ≤ ·) ((order.lines log.lines).map Prod.fst)

/-- The entries line by line; nothing if a line or a text is missing. -/
def entries? (order : Order) : Option (List Entry) := do
  let parts ← (log.lineNumbers order).mapM fun line ↦ log.lines[line]?.bind LineEntries.entries?
  return parts.flatten

end IndexedLog

/-! ## Coherence -/

/-- Whether the parts kept of a line agree. -/
structure LineEntries.Coherent (line : Int) (found : LineEntries) : Prop where
  nodup : found.order.Nodup
  mem_order_iff : ∀ source, source ∈ found.order ↔ source ∈ found.bySource
  key_eq : ∀ source (e : Entry), found.bySource[source]? = some e → e.key = (line, source)

/-- Whether all parts of a log agree: those of each line, and the counter with the lines. -/
structure IndexedLog.Coherent (log : IndexedLog) : Prop where
  onLine : ∀ line, (log.onLine line).Coherent line
  total_eq : log.total = (log.lines.toList.map fun p ↦ p.2.order.length).sum

theorem mapM_eq_some_iff {α β : Type} {f : α → Option β} {xs : List α} {ys : List β} :
    xs.mapM f = some ys ↔ xs.map f = ys.map some := by
  induction xs generalizing ys with
  | nil => cases ys <;> simp
  | cons x xs ih =>
    cases ys with
    | nil => simp [Option.bind_eq_some_iff]
    | cons y ys => simp [ih, Option.bind_eq_some_iff]

namespace LineEntries

variable {line : Int} {found : LineEntries} {e : Entry} {entries : List Entry}

theorem coherent_empty (line : Int) : empty.Coherent line where
  nodup := List.nodup_nil
  mem_order_iff source := by simp [empty]
  key_eq source e h := by simp [empty] at h

theorem Coherent.put (h : found.Coherent line) (he : e.line = line) :
    (found.put e).Coherent line where
  nodup := by
    unfold LineEntries.put
    split
    · exact h.nodup
    · next hnew =>
      rw [← h.mem_order_iff] at hnew
      exact List.concat_eq_append ▸ h.nodup.concat hnew
  mem_order_iff source := by
    unfold LineEntries.put
    rw [Std.HashMap.mem_insert, beq_iff_eq]
    split
    · next hold =>
      rw [h.mem_order_iff]
      exact ⟨.inr, fun hmem ↦ hmem.elim (fun heq ↦ heq ▸ hold) id⟩
    · rw [List.mem_append, List.mem_singleton, h.mem_order_iff, or_comm, eq_comm]
  key_eq source old hold := by
    rw [LineEntries.put, Std.HashMap.getElem?_insert] at hold
    by_cases heq : e.source = source
    · rw [if_pos (beq_iff_eq.2 heq)] at hold
      cases hold
      rw [Entry.key, he, heq]
    · rw [if_neg (by simpa using heq)] at hold
      exact h.key_eq source old hold

theorem length_order_put (found : LineEntries) (e : Entry) :
    (found.put e).order.length =
      if e.source ∈ found.bySource then found.order.length else found.order.length + 1 := by
  unfold LineEntries.put
  split
  · rfl
  · rw [List.length_append, List.length_singleton]

/-- The entries in order are those that are kept. -/
theorem Coherent.mem_iff (h : found.Coherent line) (hentries : found.entries? = some entries) :
    e ∈ entries ↔ e.line = line ∧ found.bySource[e.source]? = some e := by
  have hmap := mapM_eq_some_iff.1 hentries
  have hmem : e ∈ entries ↔ ∃ source ∈ found.order, found.bySource[source]? = some e := by
    rw [← List.mem_map_of_injective (Option.some_injective _), ← hmap, List.mem_map]
  rw [hmem]
  constructor
  · rintro ⟨source, -, hsource⟩
    obtain ⟨rfl, rfl⟩ := Prod.mk.inj (h.key_eq source e hsource)
    exact ⟨rfl, hsource⟩
  · rintro ⟨-, hsource⟩
    refine ⟨e.source, (h.mem_order_iff _).2 ?_, hsource⟩
    exact Std.HashMap.mem_iff_isSome_getElem?.2 (Option.isSome_of_eq_some hsource)

theorem Coherent.any_sameKey_iff (h : found.Coherent line)
    (hentries : found.entries? = some entries) (he : e.line = line) :
    entries.any (·.sameKey e) = true ↔ e.source ∈ found.bySource := by
  rw [List.any_eq_true, Std.HashMap.mem_iff_isSome_getElem?, Option.isSome_iff_exists]
  constructor
  · rintro ⟨old, hold, hkey⟩
    obtain ⟨-, hsource⟩ := Entry.sameKey_iff.1 hkey
    exact ⟨old, hsource ▸ ((h.mem_iff hentries).1 hold).2⟩
  · rintro ⟨old, hold⟩
    obtain ⟨hline, hsource⟩ := Prod.mk.inj (h.key_eq _ _ hold)
    refine ⟨old, (h.mem_iff hentries).2 ⟨hline, hsource.symm ▸ hold⟩, ?_⟩
    exact Entry.sameKey_iff.2 ⟨hline.trans he.symm, hsource⟩

/-- Putting an entry replaces the one with its key, or goes behind all. -/
theorem Coherent.entries?_put (h : found.Coherent line) (hentries : found.entries? = some entries)
    (he : e.line = line) :
    (found.put e).entries? =
      some (if e.source ∈ found.bySource then e.replace entries else entries ++ [e]) := by
  have hmap := mapM_eq_some_iff.1 hentries
  rw [LineEntries.entries?, mapM_eq_some_iff, LineEntries.put]
  by_cases hold : e.source ∈ found.bySource
  · have hlookup : ∀ source ∈ found.order, (found.bySource.insert e.source e)[source]? =
        found.bySource[source]?.map fun old ↦ if old.sameKey e then e else old := by
      intro source hsource
      obtain ⟨old, hsome⟩ := Option.isSome_iff_exists.1
        (Std.HashMap.mem_iff_isSome_getElem?.1 ((h.mem_order_iff source).1 hsource))
      obtain ⟨hline, hkey⟩ := Prod.mk.inj (h.key_eq source old hsome)
      have hsame : old.sameKey e = true ↔ e.source = source := by
        rw [Entry.sameKey_iff, hkey, eq_comm, and_iff_right (he.trans hline.symm), eq_comm]
      rw [Std.HashMap.getElem?_insert, hsome, Option.map_some]
      by_cases heq : e.source = source
      · rw [if_pos (beq_iff_eq.2 heq), if_pos (hsame.2 heq)]
      · rw [if_neg (by simpa using heq), if_neg (mt hsame.1 heq)]
    rw [if_pos hold, if_pos hold, List.map_congr_left hlookup]
    calc found.order.map _
        = (found.order.map (found.bySource[·]?)).map (Option.map _) := List.map_map.symm
      _ = (entries.map some).map (Option.map _) := by rw [hmap]
      _ = (e.replace entries).map some := by simp [Entry.replace]
  · have hlookup : ∀ source ∈ found.order,
        (found.bySource.insert e.source e)[source]? = found.bySource[source]? := by
      intro source hsource
      have hne : e.source ≠ source := fun heq ↦ hold (heq ▸ (h.mem_order_iff source).1 hsource)
      rw [Std.HashMap.getElem?_insert, if_neg (by simpa using hne)]
    rw [if_neg hold, if_neg hold, List.map_append, List.map_congr_left hlookup, hmap,
      List.map_singleton, Std.HashMap.getElem?_insert_self, List.map_append, List.map_singleton]

/-- However the map is gone through, its entries are those in order. -/
theorem Coherent.perm_entries (h : found.Coherent line) (hentries : found.entries? = some entries)
    (order : IndexedLog.Order) :
    ((order.sources line found.bySource).map Prod.snd).Perm entries := by
  have hkeys : found.bySource.keys.Perm found.order := by
    rw [List.perm_ext_iff_of_nodup Std.HashMap.nodup_keys h.nodup]
    intro source
    rw [Std.HashMap.mem_keys, h.mem_order_iff]
  have hsnd : ∀ p ∈ found.bySource.toList, found.bySource[p.1]? = some p.2 := fun p hp ↦
    Std.HashMap.mem_toList_iff_getElem?_eq_some.1 hp
  have hsome : ((found.bySource.toList.map Prod.snd).map some).Perm (entries.map some) :=
    calc (found.bySource.toList.map Prod.snd).map some
        = found.bySource.toList.map fun p ↦ found.bySource[p.1]? := by
          rw [List.map_map, List.map_congr_left hsnd]
          rfl
      _ = found.bySource.keys.map (found.bySource[·]?) := by
          rw [← Std.HashMap.map_fst_toList_eq_keys, List.map_map]
          rfl
      List.Perm _ (found.order.map (found.bySource[·]?)) := hkeys.map _
      _ = entries.map some := mapM_eq_some_iff.1 hentries
  refine ((order.perm_sources line found.bySource).map _).trans ?_
  simpa using hsome.filterMap id

end LineEntries

namespace IndexedLog

variable {log : IndexedLog} {e : Entry} {line : Int}

theorem onLine_empty (line : Int) : empty.onLine line = .empty := by
  rw [IndexedLog.onLine, empty, Std.HashMap.getD_empty]

theorem onLine_of_getElem? {found : LineEntries} (h : log.lines[line]? = some found) :
    log.onLine line = found := by
  rw [IndexedLog.onLine, Std.HashMap.getD_eq_getD_getElem?, h, Option.getD_some]

theorem onLine_of_mem {p : Int × LineEntries} (hp : p ∈ log.lines.toList) :
    log.onLine p.1 = p.2 :=
  onLine_of_getElem? (Std.HashMap.mem_toList_iff_getElem?_eq_some.1 hp)

theorem onLine_add (log : IndexedLog) (e : Entry) (line : Int) :
    (log.add e).onLine line =
      if e.line = line then (log.onLine line).put e else log.onLine line := by
  unfold IndexedLog.onLine IndexedLog.add
  rw [Std.HashMap.getD_insert]
  by_cases heq : e.line = line
  · subst heq
    simp [onLine]
  · simp [heq]

/-- What a line counts for is one part of a sum over all lines. -/
theorem sum_toList (m : Std.HashMap Int LineEntries) (line : Int) :
    (m.toList.map fun p ↦ p.2.order.length).sum =
      (m.getD line .empty).order.length +
        ((m.toList.filter (¬ line == ·.1)).map fun p ↦ p.2.order.length).sum := by
  rw [Std.HashMap.getD_eq_getD_getElem?]
  cases hfound : m[line]? with
  | none =>
    have hall : m.toList.filter (¬ line == ·.1) = m.toList := by
      rw [List.filter_eq_self]
      intro p hp
      have hp := Std.HashMap.mem_toList_iff_getElem?_eq_some.1 hp
      have hne : line ≠ p.1 := by
        rintro rfl
        rw [hfound] at hp
        cases hp
      simpa using hne
    rw [hall]
    exact (Nat.zero_add _).symm
  | some found =>
    have hsame : (m.insert line found).Equiv m := by
      apply Std.HashMap.Equiv.of_forall_getElem?_eq
      intro other
      rw [Std.HashMap.getElem?_insert]
      by_cases heq : line = other
      · simp [← heq, hfound]
      · simp [heq]
    have hperm := hsame.toList_perm.symm.trans Std.HashMap.toList_insert_perm
    rw [(hperm.map _).sum_eq]
    rfl

theorem Coherent.add (h : log.Coherent) (e : Entry) : (log.add e).Coherent where
  onLine line := by
    rw [onLine_add]
    split
    · next heq => exact (h.onLine line).put heq
    · exact h.onLine line
  total_eq := by
    have hsum := sum_toList log.lines e.line
    have hlength := (log.onLine e.line).length_order_put e
    have htotal := h.total_eq
    have hperm := @Std.HashMap.toList_insert_perm _ _ _ _ log.lines _ _ e.line
      ((log.onLine e.line).put e)
    have hlines : (log.add e).lines = log.lines.insert e.line ((log.onLine e.line).put e) := rfl
    have hcount : (log.add e).total =
        if e.source ∈ (log.onLine e.line).bySource then log.total else log.total + 1 := rfl
    rw [hlines, (hperm.map _).sum_eq, List.map_cons, List.sum_cons, hcount, hlength]
    change _ = (log.onLine e.line).order.length + _ at hsum
    split <;> omega

theorem coherent_empty : empty.Coherent where
  onLine line := by
    rw [onLine_empty]
    exact LineEntries.coherent_empty line
  total_eq := by simp [empty]

theorem coherent_ofAdds (adds : List Entry) : (ofAdds adds).Coherent := by
  induction adds using List.reverseRecOn with
  | nil => exact coherent_empty
  | append_singleton adds e ih =>
    rw [ofAdds, List.foldl_concat]
    exact ih.add e

end IndexedLog

/-! ## The entries that are held -/

namespace Ordered

theorem insert_eq_concat {e : Entry} {entries : List Entry}
    (h : ∀ old ∈ entries, old.line ≤ e.line) :
    insert Entry.precedes e entries = entries ++ [e] := by
  induction entries with
  | nil => rfl
  | cons first entries ih =>
    obtain ⟨hfirst, hrest⟩ := List.forall_mem_cons.1 h
    have hbehind : ¬ e.precedes first = true := by simpa [Entry.precedes] using hfirst
    rw [insert, if_neg hbehind, ih hrest, List.cons_append]

end Ordered

namespace Log

/-- The entries of one line, in order. -/
def onLine (log : Log) (line : Int) : List Entry := log.entries.filter (·.line = line)

variable {log : Log} {e : Entry} {line : Int}

theorem mem_onLine : e ∈ log.onLine line ↔ e ∈ log.entries ∧ e.line = line := by
  simp [onLine]

theorem onLine_add_self (h : log.Sorted) (e : Entry) :
    (log.add e).onLine e.line =
      if (log.onLine e.line).any (·.sameKey e) then e.replace (log.onLine e.line)
      else log.onLine e.line ++ [e] := by
  have hkey : ∀ old ∈ log.entries, old.sameKey e = true →
      decide (old.line = e.line) = decide (e.line = e.line) := by
    intro old _ hsame
    rw [(Entry.sameKey_iff.1 hsame).1]
  have hrestrict := congrArg Log.entries (restrict_add_of_pos h hkey (decide_eq_true rfl))
  have hlines : ∀ old ∈ log.onLine e.line, old.line ≤ e.line := fun old hold ↦
    (mem_onLine.1 hold).2.le
  rw [← Ordered.insert_eq_concat hlines]
  exact hrestrict

theorem onLine_add_of_ne (h : e.line ≠ line) : (log.add e).onLine line = log.onLine line := by
  refine congrArg Log.entries (@restrict_add_of_neg log e (·.line = line) ?_ (decide_eq_false h))
  intro old _ hsame
  rw [(Entry.sameKey_iff.1 hsame).1]

theorem onLine_cons (e : Entry) (entries : List Entry) (line : Int) :
    onLine ⟨e :: entries⟩ line =
      if e.line = line then e :: onLine ⟨entries⟩ line else onLine ⟨entries⟩ line := by
  simp [onLine, List.filter_cons]

/-- Going through the lines in order gives all entries in order. -/
theorem flatMap_onLine {lines : List Int} (hsorted : log.Sorted) (hlines : lines.Pairwise (· < ·))
    (hmem : ∀ e ∈ log.entries, e.line ∈ lines) : lines.flatMap log.onLine = log.entries := by
  obtain ⟨entries⟩ := log
  induction entries with
  | nil => exact List.flatMap_eq_nil_iff.2 fun line _ ↦ rfl
  | cons e entries ih =>
    obtain ⟨he, hrest⟩ := List.pairwise_cons.1 hsorted
    obtain ⟨hline, hothers⟩ := List.forall_mem_cons.1 hmem
    have ih : lines.flatMap (onLine ⟨entries⟩) = entries := ih hrest hothers
    obtain ⟨before, after, rfl⟩ := List.append_of_mem hline
    obtain ⟨-, hafter, hbefore⟩ := List.pairwise_append.1 hlines
    have hafter : ∀ line ∈ after, onLine ⟨e :: entries⟩ line = onLine ⟨entries⟩ line := by
      intro line hmem
      rw [onLine_cons, if_neg ((List.pairwise_cons.1 hafter).1 line hmem).ne]
    -- The first entry has the first line of all, so there is nothing on the lines before.
    have hnone : ∀ line ∈ before, onLine ⟨entries⟩ line = [] := by
      intro line hmem
      have hlt : line < e.line := hbefore line hmem e.line List.mem_cons_self
      rw [List.eq_nil_iff_forall_not_mem]
      intro old hold
      obtain ⟨hentry, rfl⟩ := mem_onLine.1 hold
      exact (he old hentry).not_gt hlt
    have hnone' : ∀ line ∈ before, onLine ⟨e :: entries⟩ line = [] := by
      intro line hmem
      rw [onLine_cons, if_neg (hbefore line hmem e.line List.mem_cons_self).ne', hnone line hmem]
    rw [List.flatMap_append, List.flatMap_cons] at ih ⊢
    rw [List.flatMap_eq_nil_iff.2 hnone, List.nil_append] at ih
    rw [List.flatMap_eq_nil_iff.2 hnone', List.nil_append, onLine_cons, if_pos rfl,
      List.flatMap_congr hafter, List.cons_append, ih]

end Log

namespace IndexedLog

/-- Whether an indexed log holds the entries of a log: on each line the same ones, in order. -/
structure Represents (indexed : IndexedLog) (log : Log) : Prop where
  coherent : indexed.Coherent
  sorted : log.Sorted
  entries?_onLine : ∀ line, (indexed.onLine line).entries? = some (log.onLine line)

theorem represents_empty : empty.Represents .empty where
  coherent := coherent_empty
  sorted := Log.sorted_empty
  entries?_onLine line := by
    rw [onLine_empty]
    rfl

variable {indexed : IndexedLog} {log : Log} {e : Entry} {line : Int}

/-- Adding an entry to both keeps the one in step with the other. -/
theorem Represents.add (h : indexed.Represents log) (e : Entry) :
    (indexed.add e).Represents (log.add e) where
  coherent := h.coherent.add e
  sorted := h.sorted.add e
  entries?_onLine line := by
    rw [onLine_add]
    by_cases heq : e.line = line
    · subst heq
      have hcoherent := h.coherent.onLine e.line
      have hentries := h.entries?_onLine e.line
      rw [if_pos rfl, hcoherent.entries?_put hentries rfl, Log.onLine_add_self h.sorted]
      simp only [hcoherent.any_sameKey_iff hentries rfl]
    · rw [if_neg heq, Log.onLine_add_of_ne heq]
      exact h.entries?_onLine line

theorem represents_foldl_add (h : indexed.Represents log) (adds : List Entry) :
    (adds.foldl add indexed).Represents (adds.foldl Log.add log) := by
  induction adds generalizing indexed log with
  | nil => exact h
  | cons e adds ih => exact ih (h.add e)

theorem any_getElem?_lines {f : LineEntries → Bool} (hempty : f .empty = false)
    (indexed : IndexedLog) (line : Int) :
    indexed.lines[line]?.any f = f (indexed.onLine line) := by
  rw [IndexedLog.onLine, Std.HashMap.getD_eq_getD_getElem?]
  cases indexed.lines[line]? with
  | none => exact hempty.symm
  | some found => rfl

theorem perm_lineNumbers (indexed : IndexedLog) (order : Order) :
    (indexed.lineNumbers order).Perm indexed.lines.keys := by
  rw [← Std.HashMap.map_fst_toList_eq_keys]
  exact (Ordered.perm_sort _ _).trans ((order.perm_lines indexed.lines).map _)

theorem pairwise_lineNumbers (indexed : IndexedLog) (order : Order) :
    (indexed.lineNumbers order).Pairwise (· < ·) := by
  have hle : (indexed.lineNumbers order).Pairwise (· ≤ ·) := by
    apply Ordered.pairwise_sort
    · exact fun _ _ _ ↦ Int.le_trans
    · exact fun _ _ h ↦ of_decide_eq_true h
    · exact fun _ _ h ↦ (Int.not_le.1 (of_decide_eq_false h)).le
  have hne : (indexed.lineNumbers order).Nodup :=
    (perm_lineNumbers indexed order).nodup_iff.2 Std.HashMap.nodup_keys
  exact hle.imp₂ (fun _ _ ↦ lt_of_le_of_ne) hne

namespace Represents

theorem getElem?_iff {source : String} (h : indexed.Represents log) :
    (indexed.onLine line).bySource[source]? = some e ↔
      e ∈ log.entries ∧ e.line = line ∧ e.source = source := by
  have hmem : e ∈ log.onLine line ↔ _ :=
    (h.coherent.onLine line).mem_iff (h.entries?_onLine line)
  rw [Log.mem_onLine] at hmem
  constructor
  · intro hsome
    obtain ⟨hline, hsource⟩ := Prod.mk.inj ((h.coherent.onLine line).key_eq _ _ hsome)
    exact ⟨(hmem.2 ⟨hline, hsource.symm ▸ hsome⟩).1, hline, hsource⟩
  · rintro ⟨he, hline, rfl⟩
    exact (hmem.1 ⟨he, hline⟩).2

theorem line_mem_keys (h : indexed.Represents log) (he : e ∈ log.entries) :
    e.line ∈ indexed.lines.keys := by
  have hsome : (indexed.onLine e.line).bySource[e.source]? = some e :=
    h.getElem?_iff.2 ⟨he, rfl, rfl⟩
  rw [Std.HashMap.mem_keys]
  by_contra hnew
  rw [IndexedLog.onLine, Std.HashMap.getD_eq_fallback hnew, LineEntries.empty,
    Std.HashMap.getElem?_empty] at hsome
  cases hsome

theorem flatMap_lineNumbers (h : indexed.Represents log) (order : Order) :
    (indexed.lineNumbers order).flatMap log.onLine = log.entries := by
  apply Log.flatMap_onLine h.sorted (pairwise_lineNumbers indexed order)
  intro e he
  exact (perm_lineNumbers indexed order).mem_iff.2 (h.line_mem_keys he)

/-- In whatever order the lines are taken, no text is without its entry, and the entries are those
of the log, in order. -/
theorem entries?_eq (h : indexed.Represents log) (order : Order) :
    indexed.entries? order = some log.entries := by
  have hparts : (indexed.lineNumbers order).mapM
      (fun line ↦ indexed.lines[line]?.bind LineEntries.entries?) =
        some ((indexed.lineNumbers order).map log.onLine) := by
    rw [mapM_eq_some_iff, List.map_map]
    apply List.map_congr_left
    intro line hline
    rw [(perm_lineNumbers indexed order).mem_iff, Std.HashMap.mem_keys,
      Std.HashMap.mem_iff_isSome_getElem?] at hline
    obtain ⟨found, hfound⟩ := Option.isSome_iff_exists.1 hline
    rw [hfound, Option.bind_some, ← onLine_of_getElem? hfound]
    exact h.entries?_onLine line
  rw [IndexedLog.entries?, hparts, ← h.flatMap_lineNumbers order, List.flatMap_def]
  rfl

/-- What is counted line by line is counted over all entries. -/
theorem sum_lines {f : Int × LineEntries → Nat} {p : Entry → Bool} (h : indexed.Represents log)
    (order : Order) (hf : ∀ q ∈ indexed.lines.toList, f q = (log.onLine q.1).countP p) :
    ((order.lines indexed.lines).map f).sum = log.entries.countP p := by
  calc ((order.lines indexed.lines).map f).sum
      = (indexed.lines.toList.map f).sum := ((order.perm_lines indexed.lines).map f).sum_eq
    _ = (indexed.lines.keys.map (List.countP p ∘ log.onLine)).sum := by
        rw [List.map_congr_left hf, ← Std.HashMap.map_fst_toList_eq_keys, List.map_map]
        rfl
    _ = ((indexed.lineNumbers order).map (List.countP p ∘ log.onLine)).sum :=
        ((perm_lineNumbers indexed order).map _).sum_eq.symm
    _ = log.entries.countP p := by rw [← List.countP_flatMap, h.flatMap_lineNumbers]

theorem total_eq (h : indexed.Represents log) : indexed.total = log.total := by
  have hsum : (indexed.lines.toList.map fun q ↦ q.2.order.length).sum =
      log.entries.countP fun _ ↦ true := by
    refine h.sum_lines default ?_
    intro q hq
    have hentries := mapM_eq_some_iff.1 (h.entries?_onLine q.1)
    rw [List.countP_true, ← onLine_of_mem hq]
    simpa using congrArg List.length hentries
  rw [h.coherent.total_eq, hsum, List.countP_true, Log.total]

theorem countOf_eq (h : indexed.Represents log) (order : Order) (category : Category) :
    indexed.countOf order category = log.countOf category := by
  refine h.sum_lines order ?_
  intro q hq
  have hperm := (h.coherent.onLine q.1).perm_entries (h.entries?_onLine q.1) order
  rw [onLine_of_mem hq] at hperm
  rw [← hperm.countP_eq, List.countP_map]
  rfl

theorem includesExactly_eq (h : indexed.Represents log) (category : Category) (line : Int)
    (source : String) :
    indexed.includesExactly category line source = log.includesExactly category line source := by
  rw [IndexedLog.includesExactly, any_getElem?_lines (by simp [LineEntries.empty]),
    Bool.eq_iff_iff, Option.any_eq_true, Log.includesExactly, List.any_eq_true]
  simp only [h.getElem?_iff, Bool.and_eq_true, decide_eq_true_eq, and_assoc]

theorem includesOnLine_eq (h : indexed.Represents log) (order : Order) (category : Category)
    (line : Int) :
    indexed.includesOnLine order category line = log.includesOnLine category line := by
  have hperm := (h.coherent.onLine line).perm_entries (h.entries?_onLine line) order
  have hempty : (order.sources line ∅).any (·.2.category = category) = false := by
    have hnil : (order.sources line ∅).Perm [] :=
      Std.HashMap.toList_empty ▸ order.perm_sources line ∅
    rw [hnil.eq_nil, List.any_nil]
  rw [IndexedLog.includesOnLine, any_getElem?_lines hempty]
  calc (order.sources line (indexed.onLine line).bySource).any (·.2.category = category)
      = ((order.sources line (indexed.onLine line).bySource).map Prod.snd).any
          (·.category = category) := by
        rw [List.any_map]
        rfl
    _ = (log.onLine line).any (·.category = category) := hperm.any_eq
    _ = log.includesOnLine category line := List.any_filter

theorem isEmpty_eq (h : indexed.Represents log) : indexed.isEmpty = log.isEmpty := by
  rw [IndexedLog.isEmpty, h.total_eq, Log.total, Log.isEmpty, Bool.eq_iff_iff, decide_eq_true_eq,
    List.length_eq_zero_iff, List.isEmpty_iff]

end Represents

/-- Whether an indexed log gives the answers that a log gives, its maps being gone through in some
order. -/
structure Agrees (indexed : IndexedLog) (order : Order) (log : Log) : Prop where
  entries?_eq : indexed.entries? order = some log.entries
  total_eq : indexed.total = log.total
  isEmpty_eq : indexed.isEmpty = log.isEmpty
  includesExactly_eq : indexed.includesExactly = log.includesExactly
  includesOnLine_eq : indexed.includesOnLine order = log.includesOnLine
  countOf_eq : indexed.countOf order = log.countOf

/-- What entries are added to gives the answers of the log that they are added to. -/
theorem agrees_ofAdds (order : Order) (adds : List Entry) :
    (ofAdds adds).Agrees order (adds.foldl Log.add .empty) := by
  have h := represents_foldl_add represents_empty adds
  refine ⟨h.entries?_eq order, h.total_eq, h.isEmpty_eq, ?_, ?_, ?_⟩
  · funext category line source
    exact h.includesExactly_eq category line source
  · funext category line
    exact h.includesOnLine_eq order category line
  · funext category
    exact h.countOf_eq order category

end IndexedLog

end ScriptAnalysis
