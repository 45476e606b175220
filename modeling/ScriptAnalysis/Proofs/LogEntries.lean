import ScriptAnalysis.Proofs.Propagation

/-!
# Leaving entries out of a log

A log keeps its entries in the order of their lines. Where the entries that are left out share no
key with those that stay, it makes no difference whether they are taken out of the finished log or
never added to it.
-/

namespace ScriptAnalysis

namespace Ordered

variable {e : Entry} {entries : List Entry} {keep : Entry → Bool}

theorem insert_eq_cons (h : ∀ later ∈ entries, e.line < later.line) :
    insert Entry.precedes e entries = e :: entries := by
  cases entries with
  | nil => rfl
  | cons first entries => exact if_pos (decide_eq_true (h first List.mem_cons_self))

theorem filter_insert_of_neg (he : keep e = false) :
    (insert Entry.precedes e entries).filter keep = entries.filter keep := by
  induction entries with
  | nil => simp [insert, he]
  | cons first entries ih =>
    rw [insert]
    split
    · simp [he]
    · rw [List.filter_cons, ih, ← List.filter_cons]

theorem filter_insert_of_pos (hsorted : entries.Pairwise fun a b ↦ a.line ≤ b.line)
    (he : keep e = true) :
    (insert Entry.precedes e entries).filter keep =
      insert Entry.precedes e (entries.filter keep) := by
  induction entries with
  | nil => simp [insert, he]
  | cons first entries ih =>
    obtain ⟨hfirst, hrest⟩ := List.pairwise_cons.1 hsorted
    by_cases hbefore : e.line < first.line
    · -- All later entries stand on later lines, whichever of them stay.
      have hall : ∀ later ∈ first :: entries, e.line < later.line :=
        List.forall_mem_cons.2
          ⟨hbefore, fun later hlater ↦ Int.lt_of_lt_of_le hbefore (hfirst later hlater)⟩
      rw [insert_eq_cons hall, List.filter_cons_of_pos he, insert_eq_cons]
      intro later hlater
      exact hall later (List.mem_filter.1 hlater).1
    · have hskip (rest : List Entry) :
          insert Entry.precedes e (first :: rest) = first :: insert Entry.precedes e rest :=
        if_neg (by simpa [Entry.precedes] using hbefore)
      rw [hskip, List.filter_cons, List.filter_cons, ih hrest]
      split
      · exact (hskip _).symm
      · rfl

end Ordered

theorem Entry.sameKey_iff {a b : Entry} :
    a.sameKey b = true ↔ a.line = b.line ∧ a.source = b.source := by
  simp [Entry.sameKey]

namespace Log

variable {log : Log} {e : Entry} {keep : Entry → Bool}

/-- Whether the entries of a log stand in the order of their lines. -/
def Sorted (log : Log) : Prop := log.entries.Pairwise fun a b ↦ a.line ≤ b.line

theorem sorted_empty : Log.empty.Sorted := List.Pairwise.nil

theorem Sorted.add (h : log.Sorted) (e : Entry) : (log.add e).Sorted := by
  unfold Sorted Log.add
  split
  · have hline (old : Entry) : (if old.sameKey e then e else old).line = old.line := by
      split
      · next hkey => exact (Entry.sameKey_iff.1 hkey).1.symm
      · rfl
    apply List.pairwise_map.2
    simp only [hline]
    exact h
  · refine Ordered.pairwise_insert h (fun _ _ ↦ Int.le_trans) ?_ ?_
    · intro old _ hbefore
      exact Int.le_of_lt (of_decide_eq_true hbefore)
    · intro old _ hbehind
      exact Int.not_lt.1 (of_decide_eq_false hbehind)

theorem mem_entries_add {entry : Entry} (h : entry ∈ (log.add e).entries) :
    entry = e ∨ entry ∈ log.entries := by
  unfold Log.add at h
  split at h
  · obtain ⟨old, hold, rfl⟩ := List.mem_map.1 h
    by_cases hkey : old.sameKey e = true
    · exact .inl (if_pos hkey)
    · exact .inr ((if_neg hkey).symm ▸ hold)
  · exact Ordered.mem_insert.1 h

/-- A log without the entries that are left out. -/
def restrict (keep : Entry → Bool) (log : Log) : Log := ⟨log.entries.filter keep⟩

theorem filter_replace (hkey : ∀ old ∈ log.entries, old.sameKey e = true → keep old = keep e) :
    (e.replace log.entries).filter keep = e.replace (log.entries.filter keep) := by
  have hsame : ∀ old ∈ log.entries, keep (if old.sameKey e then e else old) = keep old := by
    intro old hold
    split
    · next hsame => exact (hkey old hold hsame).symm
    · rfl
  rw [Entry.replace, List.filter_map, Entry.replace]
  exact congrArg _ (List.filter_congr hsame)

theorem restrict_add_of_pos (hsorted : log.Sorted)
    (hkey : ∀ old ∈ log.entries, old.sameKey e = true → keep old = keep e)
    (he : keep e = true) : (log.add e).restrict keep = (log.restrict keep).add e := by
  have hany : (log.entries.filter keep).any (·.sameKey e) = log.entries.any (·.sameKey e) := by
    rw [Bool.eq_iff_iff, List.any_filter, List.any_eq_true, List.any_eq_true]
    constructor
    · rintro ⟨old, hold, h⟩
      exact ⟨old, hold, (Bool.and_eq_true_iff.1 h).2⟩
    · rintro ⟨old, hold, h⟩
      exact ⟨old, hold, Bool.and_eq_true_iff.2 ⟨(hkey old hold h).trans he, h⟩⟩
  unfold restrict Log.add
  rw [hany]
  split
  · rw [filter_replace hkey]
  · rw [Ordered.filter_insert_of_pos hsorted he]

theorem restrict_add_of_neg
    (hkey : ∀ old ∈ log.entries, old.sameKey e = true → keep old = keep e)
    (he : keep e = false) : (log.add e).restrict keep = log.restrict keep := by
  unfold restrict Log.add
  split
  · have hother : ∀ old ∈ log.entries.filter keep, (if old.sameKey e then e else old) = old := by
      intro old hold
      obtain ⟨hold, hkeep⟩ := List.mem_filter.1 hold
      apply if_neg
      intro hsame
      rw [hkey old hold hsame, he] at hkeep
      cases hkeep
    rw [filter_replace hkey, Entry.replace, List.map_congr_left hother, List.map_id'']
    intro old
    rfl
  · rw [Ordered.filter_insert_of_neg he]

/-- Where entries under one key stay or are left out together, it makes no difference whether those
to be left out are taken out of the log or not added to it. -/
theorem restrict_foldl_add {entries : List Entry} (hsorted : log.Sorted)
    (hkey : ∀ a ∈ log.entries ++ entries, ∀ b ∈ log.entries ++ entries,
      a.sameKey b = true → keep a = keep b) :
    (entries.foldl Log.add log).restrict keep =
      (entries.filter keep).foldl Log.add (log.restrict keep) := by
  induction entries generalizing log with
  | nil => rfl
  | cons e entries ih =>
    have he : e ∈ log.entries ++ e :: entries := List.mem_append_right _ List.mem_cons_self
    have hold : ∀ old ∈ log.entries, old.sameKey e = true → keep old = keep e := fun old hold ↦
      hkey old (List.mem_append_left _ hold) e he
    have hsub : ∀ a ∈ (log.add e).entries ++ entries, a ∈ log.entries ++ e :: entries := by
      intro a ha
      rcases List.mem_append.1 ha with ha | ha
      · rcases mem_entries_add ha with rfl | ha
        · exact he
        · exact List.mem_append_left _ ha
      · exact List.mem_append_right _ (List.mem_cons_of_mem e ha)
    have hlater := ih (hsorted.add e) fun a ha b hb ↦ hkey a (hsub a ha) b (hsub b hb)
    rw [List.foldl_cons, hlater]
    cases hkeep : keep e with
    | true =>
      rw [restrict_add_of_pos hsorted hold hkeep, List.filter_cons_of_pos hkeep, List.foldl_cons]
    | false =>
      rw [restrict_add_of_neg hold hkeep, List.filter_cons_of_neg (by simp [hkeep])]

theorem isEmpty_foldl_add {entries : List Entry} :
    (entries.foldl Log.add log).isEmpty = true ↔ log.isEmpty = true ∧ entries = [] := by
  induction entries generalizing log with
  | nil => simp
  | cons e entries ih => simp [ih, Log.isEmpty_add]

theorem foldl_record (log : Log) (events : List Event) :
    events.foldl Log.record log = (events.filterMap Event.entry?).foldl Log.add log := by
  induction events generalizing log with
  | nil => rfl
  | cons event events ih =>
    rw [List.foldl_cons, ih, Log.record]
    cases hentry : event.entry? with
    | none => rw [List.filterMap_cons_none hentry]
    | some entry => rw [List.filterMap_cons_some hentry, List.foldl_cons]

end Log

end ScriptAnalysis
