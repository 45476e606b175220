import ScriptAnalysis.Proofs.LogEntries
import Mathlib.Data.List.Induction

/-!
# One entry for each key

A log holds one entry for each line and text that was ever reported, the last one added. Which keys
it has does not hang on the order of the reports, and adding the same reports once more leaves the
log as it is.
-/

namespace ScriptAnalysis

/-- What an entry is kept under. -/
def Entry.key (e : Entry) : Int × String := (e.line, e.source)

theorem Entry.sameKey_iff_key {a b : Entry} : a.sameKey b = true ↔ a.key = b.key := by
  rw [Entry.sameKey_iff, Entry.key, Entry.key, Prod.mk.injEq]

namespace Log

variable {log : Log} {e old : Entry} {k : Int × String}

def keys (log : Log) : List (Int × String) := log.entries.map Entry.key

theorem key_replace (e old : Entry) : (if old.sameKey e then e else old).key = old.key := by
  split
  · next hkey => exact (Entry.sameKey_iff_key.1 hkey).symm
  · rfl

theorem any_sameKey_iff : log.entries.any (·.sameKey e) = true ↔ e.key ∈ log.keys := by
  simp only [List.any_eq_true, Entry.sameKey_iff_key, keys, List.mem_map]

theorem keys_add_of_mem (h : e.key ∈ log.keys) : (log.add e).keys = log.keys := by
  rw [keys, keys, Log.add, if_pos (any_sameKey_iff.2 h), Entry.replace, List.map_map]
  exact List.map_congr_left fun old _ ↦ key_replace e old

theorem keys_add_of_notMem (h : e.key ∉ log.keys) : (log.add e).keys.Perm (e.key :: log.keys) := by
  rw [keys, keys, Log.add, if_neg (any_sameKey_iff.not.2 h)]
  exact (Ordered.perm_insert Entry.precedes e log.entries).map Entry.key

theorem mem_keys_add : k ∈ (log.add e).keys ↔ k = e.key ∨ k ∈ log.keys := by
  by_cases h : e.key ∈ log.keys
  · rw [keys_add_of_mem h]
    exact ⟨.inr, fun hk ↦ hk.elim (fun heq ↦ heq ▸ h) id⟩
  · rw [(keys_add_of_notMem h).mem_iff, List.mem_cons]

theorem nodup_keys_add (h : log.keys.Nodup) (e : Entry) : (log.add e).keys.Nodup := by
  by_cases he : e.key ∈ log.keys
  · rw [keys_add_of_mem he]
    exact h
  · exact (keys_add_of_notMem he).nodup_iff.2 (List.nodup_cons.2 ⟨he, h⟩)

theorem mem_keys_foldl_add {entries : List Entry} :
    k ∈ (entries.foldl Log.add log).keys ↔ k ∈ log.keys ∨ k ∈ entries.map Entry.key := by
  induction entries generalizing log with
  | nil => simp
  | cons e entries ih =>
    rw [List.foldl_cons, ih, mem_keys_add, List.map_cons, List.mem_cons]
    tauto

theorem nodup_keys_foldl_add (h : log.keys.Nodup) (entries : List Entry) :
    (entries.foldl Log.add log).keys.Nodup := by
  induction entries generalizing log with
  | nil => exact h
  | cons e entries ih => exact ih (nodup_keys_add h e)

/-- Reports in another order are kept under the same keys. -/
theorem perm_keys_foldl_add {entries entries' : List Entry} (h : entries.Perm entries') :
    (entries.foldl Log.add .empty).keys.Perm (entries'.foldl Log.add .empty).keys := by
  have hempty : Log.empty.keys.Nodup := List.nodup_nil
  rw [List.perm_ext_iff_of_nodup (nodup_keys_foldl_add hempty _) (nodup_keys_foldl_add hempty _)]
  intro k
  rw [mem_keys_foldl_add, mem_keys_foldl_add, (h.map Entry.key).mem_iff]

theorem total_eq_length_keys (log : Log) : log.total = log.keys.length :=
  (List.length_map Entry.key).symm

end Log

/-- The entry that stands where an entry stood, after some more are added. -/
def Entry.latest (old : Entry) (entries : List Entry) : Entry :=
  entries.foldl (fun old e ↦ if old.sameKey e then e else old) old

theorem Entry.key_latest (old : Entry) (entries : List Entry) :
    (old.latest entries).key = old.key := by
  unfold Entry.latest
  induction entries generalizing old with
  | nil => rfl
  | cons e entries ih => rw [List.foldl_cons, ih, Log.key_replace]

namespace Log

variable {log : Log} {e old : Entry} {entries : List Entry}

/-- Where all keys are taken, adding entries only replaces those there are. -/
theorem foldl_add_of_keys (h : ∀ e ∈ entries, e.key ∈ log.keys) :
    entries.foldl Log.add log = ⟨log.entries.map (Entry.latest · entries)⟩ := by
  induction entries generalizing log with
  | nil => exact congrArg Log.mk (List.map_id _).symm
  | cons e entries ih =>
    obtain ⟨he, hothers⟩ := List.forall_mem_cons.1 h
    have hadd : (log.add e).entries = e.replace log.entries := if_pos (any_sameKey_iff.2 he)
    rw [List.foldl_cons, ih (by rwa [keys_add_of_mem he]), hadd, Entry.replace, List.map_map]
    rfl

theorem eq_of_mem_add (h : old ∈ (log.add e).entries) (hkey : old.sameKey e = true) : old = e := by
  unfold Log.add at h
  split at h
  · obtain ⟨replaced, -, rfl⟩ := List.mem_map.1 h
    by_cases hsame : replaced.sameKey e = true
    · exact if_pos hsame
    · rw [if_neg hsame] at hkey
      exact absurd hkey hsame
  · next hany =>
    rcases Ordered.mem_insert.1 h with rfl | h
    · rfl
    · exact absurd (List.any_eq_true.2 ⟨old, h, hkey⟩) hany

/-- An entry of a finished log is the last that was added under its key. -/
theorem latest_of_mem (h : old ∈ (entries.foldl Log.add .empty).entries) :
    old.latest entries = old := by
  induction entries using List.reverseRecOn generalizing old with
  | nil => rfl
  | append_singleton entries e ih =>
    rw [List.foldl_append] at h
    have hlatest : old.latest (entries ++ [e]) =
        if (old.latest entries).sameKey e then e else old.latest entries :=
      List.foldl_append
    by_cases hkey : old.sameKey e = true
    · have hlast : (old.latest entries).sameKey e = true := by
        rw [Entry.sameKey_iff_key, Entry.key_latest, ← Entry.sameKey_iff_key]
        exact hkey
      rw [hlatest, if_pos hlast]
      exact (eq_of_mem_add h hkey).symm
    · have hold : old ∈ (entries.foldl Log.add .empty).entries := by
        apply (mem_entries_add h).resolve_left
        intro heq
        exact hkey (Entry.sameKey_iff_key.2 (congrArg Entry.key heq))
      rw [hlatest, ih hold, if_neg hkey]

/-- Adding the same entries once more leaves a log as it is. -/
theorem foldl_add_self (entries : List Entry) :
    entries.foldl Log.add (entries.foldl Log.add .empty) = entries.foldl Log.add .empty := by
  have hkeys : ∀ e ∈ entries, e.key ∈ (entries.foldl Log.add .empty).keys := fun e he ↦
    mem_keys_foldl_add.2 (.inr (List.mem_map_of_mem he))
  have hlatest : ∀ old ∈ (entries.foldl Log.add .empty).entries, old.latest entries = old :=
    fun old hold ↦ latest_of_mem hold
  calc entries.foldl Log.add (entries.foldl Log.add .empty)
      = ⟨(entries.foldl Log.add .empty).entries.map (Entry.latest · entries)⟩ :=
        foldl_add_of_keys hkeys
    _ = ⟨(entries.foldl Log.add .empty).entries⟩ :=
        congrArg Log.mk ((List.map_congr_left hlatest).trans (List.map_id _))

end Log

end ScriptAnalysis
