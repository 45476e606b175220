import Mathlib.Data.List.Dedup
import ScriptAnalysis.Proofs.IndexedLog

/-!
# A log keeps the last entry of each key

What a log holds can be told from the entries that were added to it, without following how it
changed: under each key the last entry that was added, in the order of lines, and within a line in
the order in which the keys first came. Every question to the log is answered by this.
-/

namespace ScriptAnalysis

namespace Log

/-- The log that some entries were added to, one after the other. -/
def ofAdds (adds : List Entry) : Log := adds.foldl Log.add .empty

theorem ofAdds_concat (adds : List Entry) (e : Entry) :
    ofAdds (adds ++ [e]) = (ofAdds adds).add e := List.foldl_concat ..

/-- The last entry that was added under a key. -/
def lastAdd? (adds : List Entry) (key : Int × String) : Option Entry :=
  adds.reverse.find? (·.key = key)

/-- Whether a key comes before another: it is on an earlier line, or on the same line and an entry
was added under it earlier. -/
def KeyBefore (adds : List Entry) (key other : Int × String) : Prop :=
  key.1 < other.1 ∨
    key.1 = other.1 ∧ (adds.map Entry.key).idxOf key < (adds.map Entry.key).idxOf other

/-- Whether some entries are the last ones of their keys, in order. -/
structure Keeps (adds entries : List Entry) : Prop where
  mem_iff : ∀ e, e ∈ entries ↔ lastAdd? adds e.key = some e
  ordered : (entries.map Entry.key).Pairwise (KeyBefore adds)

variable {adds entries entries' : List Entry} {e : Entry} {key other third : Int × String}

theorem lastAdd?_concat (adds : List Entry) (e : Entry) (key : Int × String) :
    lastAdd? (adds ++ [e]) key = if e.key = key then some e else lastAdd? adds key := by
  unfold lastAdd?
  rw [List.reverse_concat, List.find?_cons]
  by_cases h : e.key = key <;> simp [h]

theorem key_of_lastAdd? (h : lastAdd? adds key = some e) : e.key = key := by
  unfold lastAdd? at h
  simpa using List.find?_some h

theorem isSome_lastAdd?_iff : (lastAdd? adds key).isSome = true ↔ key ∈ adds.map Entry.key := by
  simp [lastAdd?]

theorem KeyBefore.trans (h : KeyBefore adds key other) (h' : KeyBefore adds other third) :
    KeyBefore adds key third := by
  unfold KeyBefore at *
  omega

theorem KeyBefore.asymm (h : KeyBefore adds key other) : ¬ KeyBefore adds other key := by
  unfold KeyBefore at *
  omega

/-- Keys that are there keep their order. -/
theorem keyBefore_concat_iff (hkey : key ∈ adds.map Entry.key)
    (hother : other ∈ adds.map Entry.key) :
    KeyBefore (adds ++ [e]) key other ↔ KeyBefore adds key other := by
  rw [KeyBefore, KeyBefore, List.map_append, List.idxOf_append_of_mem hkey,
    List.idxOf_append_of_mem hother]

/-- A new key comes behind those of its line. -/
theorem keyBefore_concat_new (hkey : key ∈ adds.map Entry.key) (he : e.key ∉ adds.map Entry.key)
    (hline : key.1 ≤ e.line) : KeyBefore (adds ++ [e]) key e.key := by
  have hold : (adds.map Entry.key).idxOf key < (adds.map Entry.key).length :=
    List.idxOf_lt_length_of_mem hkey
  have hnew : ((adds ++ [e]).map Entry.key).idxOf e.key = (adds.map Entry.key).length := by
    rw [List.map_append, List.idxOf_append_of_notMem he]
    simp
  rw [KeyBefore, hnew, List.map_append, List.idxOf_append_of_mem hkey]
  have hfst : e.key.1 = e.line := rfl
  omega

namespace Keeps

theorem nodup_keys (h : Keeps adds entries) : (entries.map Entry.key).Nodup :=
  h.ordered.imp fun hbefore heq ↦ (heq ▸ hbefore).asymm (heq ▸ hbefore)

/-- Entries can be kept in one way only. -/
theorem eq (h : Keeps adds entries) (h' : Keeps adds entries') : entries = entries' := by
  have hperm : entries.Perm entries' := by
    rw [List.perm_ext_iff_of_nodup h.nodup_keys.of_map h'.nodup_keys.of_map]
    intro e
    rw [h.mem_iff, h'.mem_iff]
  refine List.Perm.eq_of_pairwise ?_ (List.pairwise_map.1 h.ordered)
    (List.pairwise_map.1 h'.ordered) hperm
  intro a b _ _ hab hba
  exact absurd hba hab.asymm

theorem mem_keys_iff (h : Keeps adds entries) :
    key ∈ entries.map Entry.key ↔ key ∈ adds.map Entry.key := by
  rw [← @isSome_lastAdd?_iff adds, List.mem_map, Option.isSome_iff_exists]
  constructor
  · rintro ⟨e, he, rfl⟩
    exact ⟨e, (h.mem_iff e).1 he⟩
  · rintro ⟨e, he⟩
    have hkey := key_of_lastAdd? he
    exact ⟨e, (h.mem_iff e).2 (hkey.symm ▸ he), hkey⟩

end Keeps

theorem mem_add_iff {log : Log} {x : Entry} :
    x ∈ (log.add e).entries ↔ x = e ∨ x.key ≠ e.key ∧ x ∈ log.entries := by
  constructor
  · intro hx
    by_cases hkey : x.key = e.key
    · exact .inl (eq_of_mem_add hx (Entry.sameKey_iff_key.2 hkey))
    · have hne : x ≠ e := fun heq ↦ hkey (congrArg Entry.key heq)
      exact .inr ⟨hkey, (mem_entries_add hx).resolve_left hne⟩
  · rintro (rfl | ⟨hkey, hx⟩)
    · exact log.mem_add_self x
    · unfold Log.add
      split
      · refine List.mem_map.2 ⟨x, hx, if_neg ?_⟩
        rw [Entry.sameKey_iff_key]
        exact hkey
      · exact Ordered.mem_insert.2 (.inr hx)

theorem Keeps.add {log : Log} (h : Keeps adds log.entries) (e : Entry) :
    Keeps (adds ++ [e]) (log.add e).entries := by
  have hkeys : ∀ old ∈ log.entries, old.key ∈ adds.map Entry.key := fun old hold ↦
    h.mem_keys_iff.1 (List.mem_map_of_mem hold)
  have hold : log.entries.Pairwise fun a b ↦ KeyBefore (adds ++ [e]) a.key b.key := by
    refine (List.pairwise_map.1 h.ordered).imp_of_mem ?_
    intro a b ha hb
    exact (keyBefore_concat_iff (hkeys a ha) (hkeys b hb)).2
  constructor
  · intro x
    rw [mem_add_iff, h.mem_iff, lastAdd?_concat]
    by_cases hkey : e.key = x.key
    · simp [hkey, eq_comm]
    · have hne : x ≠ e := fun heq ↦ hkey (congrArg Entry.key heq).symm
      simp [hkey, Ne.symm hkey, hne]
  · by_cases he : e.key ∈ log.keys
    · have hsame : (log.add e).entries.map Entry.key = log.entries.map Entry.key :=
        keys_add_of_mem he
      rw [hsame, List.pairwise_map]
      exact hold
    · have hinsert : (log.add e).entries = Ordered.insert Entry.precedes e log.entries :=
        if_neg (any_sameKey_iff.not.2 he)
      rw [hinsert, List.pairwise_map]
      refine Ordered.pairwise_insert hold (fun _ _ ↦ KeyBefore.trans) ?_ ?_
      · intro old _ hbefore
        exact .inl (of_decide_eq_true hbefore)
      · intro old hmem hbehind
        exact keyBefore_concat_new (hkeys old hmem) (h.mem_keys_iff.not.1 he)
          (Int.not_lt.1 (of_decide_eq_false hbehind))

/-- The log that entries were added to keeps the last of them under each key. -/
theorem keeps_ofAdds (adds : List Entry) : Keeps adds (ofAdds adds).entries := by
  induction adds using List.reverseRecOn with
  | nil => exact ⟨by simp [ofAdds, Log.empty, lastAdd?], .nil⟩
  | append_singleton adds e ih =>
    rw [ofAdds_concat]
    exact ih.add e

theorem keys_perm_dedup (adds : List Entry) :
    (ofAdds adds).keys.Perm (adds.map Entry.key).dedup := by
  have hkeeps := keeps_ofAdds adds
  rw [keys, List.perm_ext_iff_of_nodup hkeeps.nodup_keys (List.nodup_dedup _)]
  intro key
  rw [hkeeps.mem_keys_iff, List.mem_dedup]

theorem total_ofAdds (adds : List Entry) :
    (ofAdds adds).total = (adds.map Entry.key).dedup.length := by
  rw [total_eq_length_keys]
  exact (keys_perm_dedup adds).length_eq

theorem includesExactly_ofAdds_iff {category : Category} {line : Int} {source : String} :
    (ofAdds adds).includesExactly category line source = true ↔
      ∃ e, lastAdd? adds (line, source) = some e ∧ e.category = category := by
  have hkeeps := keeps_ofAdds adds
  rw [Log.includesExactly, List.any_eq_true]
  constructor
  · rintro ⟨e, he, h⟩
    simp only [Bool.and_eq_true, decide_eq_true_eq] at h
    obtain ⟨⟨rfl, rfl⟩, hcategory⟩ := h
    exact ⟨e, (hkeeps.mem_iff e).1 he, hcategory⟩
  · rintro ⟨e, he, hcategory⟩
    have hkey : e.key = (line, source) := key_of_lastAdd? he
    obtain ⟨rfl, rfl⟩ := Prod.mk.inj hkey
    exact ⟨e, (hkeeps.mem_iff e).2 he, by simp [hcategory]⟩

theorem includesOnLine_iff {log : Log} {category : Category} {line : Int} :
    log.includesOnLine category line = true ↔
      ∃ e ∈ log.entries, e.line = line ∧ e.category = category := by
  simp [Log.includesOnLine]

theorem includesOnLine_ofAdds_iff {category : Category} {line : Int} :
    (ofAdds adds).includesOnLine category line = true ↔
      ∃ source e, lastAdd? adds (line, source) = some e ∧ e.category = category := by
  have hexactly : (ofAdds adds).includesOnLine category line = true ↔
      ∃ source, (ofAdds adds).includesExactly category line source = true := by
    simp [Log.includesOnLine, Log.includesExactly]
  simp only [hexactly, includesExactly_ofAdds_iff]

theorem countOf_ofAdds (adds : List Entry) (category : Category) :
    (ofAdds adds).countOf category =
      (adds.map Entry.key).dedup.countP fun key ↦
        (lastAdd? adds key).any (·.category = category) := by
  have hkeeps := keeps_ofAdds adds
  rw [← (keys_perm_dedup adds).countP_eq, keys, List.countP_map, Log.countOf]
  refine List.countP_congr fun e he ↦ ?_
  rw [Function.comp_apply, (hkeeps.mem_iff e).1 he]
  rfl

end Log

/-- A log is an ordered map in which the last write wins. However its maps are gone through, an
indexed log stays coherent and gives the answers of the plain list. Its entries are the one list
that holds under each key the last entry that was added, in the order of lines and of the first
entries of the keys. So it has one entry for each key, is empty only at the start, and answers every
question from the last entries. -/
theorem log_is_last_write_map (order : IndexedLog.Order) (adds : List Entry) :
    (IndexedLog.ofAdds adds).Coherent ∧
    (IndexedLog.ofAdds adds).Agrees order (Log.ofAdds adds) ∧
    (∀ entries, (IndexedLog.ofAdds adds).entries? order = some entries ↔
      (∀ e, e ∈ entries ↔ Log.lastAdd? adds e.key = some e) ∧
        (entries.map Entry.key).Pairwise (Log.KeyBefore adds)) ∧
    (∃ entries, (IndexedLog.ofAdds adds).entries? order = some entries ∧
      (entries.map Entry.key).Perm (adds.map Entry.key).dedup ∧
      (IndexedLog.ofAdds adds).total = entries.length ∧
      (∀ category line, (IndexedLog.ofAdds adds).includesOnLine order category line = true ↔
        ∃ e ∈ entries, e.line = line ∧ e.category = category) ∧
      ∀ category, (IndexedLog.ofAdds adds).countOf order category =
        (entries.filter (·.category = category)).length) ∧
    (IndexedLog.ofAdds adds).total = (adds.map Entry.key).dedup.length ∧
    ((IndexedLog.ofAdds adds).isEmpty = true ↔ adds = []) ∧
    (∀ category line source,
      (IndexedLog.ofAdds adds).includesExactly category line source = true ↔
        ∃ e, Log.lastAdd? adds (line, source) = some e ∧ e.category = category) ∧
    (∀ category line, (IndexedLog.ofAdds adds).includesOnLine order category line = true ↔
      ∃ source e, Log.lastAdd? adds (line, source) = some e ∧ e.category = category) ∧
    ∀ category, (IndexedLog.ofAdds adds).countOf order category =
      (adds.map Entry.key).dedup.countP
        fun key ↦ (Log.lastAdd? adds key).any (·.category = category) := by
  have hkeeps := Log.keeps_ofAdds adds
  have hagrees := IndexedLog.agrees_ofAdds order adds
  refine ⟨IndexedLog.coherent_ofAdds adds, hagrees, ?_⟩
  rw [hagrees.entries?_eq, hagrees.total_eq, hagrees.isEmpty_eq, hagrees.includesExactly_eq,
    hagrees.includesOnLine_eq, hagrees.countOf_eq]
  refine ⟨fun entries ↦ ⟨?_, ?_⟩, ⟨(Log.ofAdds adds).entries, rfl, Log.keys_perm_dedup adds, rfl,
    fun _ _ ↦ Log.includesOnLine_iff, fun _ ↦ List.countP_eq_length_filter⟩, Log.total_ofAdds adds,
    ?_, fun _ _ _ ↦ Log.includesExactly_ofAdds_iff, fun _ _ ↦ Log.includesOnLine_ofAdds_iff,
    Log.countOf_ofAdds adds⟩
  · intro hsome
    cases hsome
    exact ⟨hkeeps.mem_iff, hkeeps.ordered⟩
  · rintro ⟨hmem, hordered⟩
    exact congrArg some (hkeeps.eq ⟨hmem, hordered⟩)
  · have hempty : Log.empty.isEmpty = true := rfl
    rw [Log.isEmpty_foldl_add]
    exact and_iff_right hempty

end ScriptAnalysis
