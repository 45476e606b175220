import ScriptAnalysis.Proofs.Ordering
import ScriptAnalysis.Proofs.Visibility

/-!
# Numbers of symbols

Whatever is done to a table of scopes, a symbol has for its number how many symbols of its kind were
bound in its scope before it, replaced ones included. So the parameters of a scope, and its
variables, are listed in the order in which they were bound, and no two of them have the same
number.
-/

namespace ScriptAnalysis

def Symbol.slot? (symbol : Symbol) : Option Slot := Slot.of? symbol.isParam symbol.type

/-- What an operation binds in the scope at a position. -/
def ScopeOp.bindingAt? (id : ScopeId) (op : ScopeOp) : Option Binding :=
  if op.target = id then op.binding? else none

/-- What some operations bind in the scope at a position, one after the other. -/
def ScopeOp.bindingsAt (id : ScopeId) (ops : List ScopeOp) : List Binding :=
  ops.filterMap (ScopeOp.bindingAt? id)

namespace Binding

/-- How many of some bindings are of a kind. -/
def count (bs : List Binding) (slot : Slot) : Nat := bs.countP (·.slot? = some slot)

/-- The symbols of the bindings that are the last of their name, behind some earlier bindings. -/
def live (earlier : List Binding) : List Binding → List Symbol
  | [] => []
  | b :: later =>
    if b.name ∈ later.map Binding.name then live (earlier ++ [b]) later
    else b.symbol (count earlier) :: live (earlier ++ [b]) later

variable {earlier bs : List Binding} {b : Binding} {symbol : Symbol} {slot : Slot}

theorem ordinal_symbol {next : Slot → Nat} (h : b.slot? = some slot) :
    (b.symbol next).ordinal = next slot := by
  simp [symbol, h]

theorem count_append_singleton :
    count (bs ++ [b]) slot = count bs slot + if b.slot? = some slot then 1 else 0 := by
  rw [count, List.countP_append, List.countP_singleton]
  simp [count]

theorem mem_live_cons {later : List Binding} :
    symbol ∈ live earlier (b :: later) ↔
      (b.name ∉ later.map Binding.name ∧ symbol = b.symbol (count earlier)) ∨
        symbol ∈ live (earlier ++ [b]) later := by
  rw [live]
  split
  · next hname => simp [hname]
  · next hname => rw [List.mem_cons, and_iff_right hname]

/-- A live symbol comes from a binding that is the last of its name. -/
theorem mem_live_iff :
    symbol ∈ live earlier bs ↔ ∃ before b later, bs = before ++ b :: later ∧
      b.name ∉ later.map Binding.name ∧ symbol = b.symbol (count (earlier ++ before)) := by
  induction bs generalizing earlier with
  | nil => simp [live]
  | cons first bs ih =>
    rw [mem_live_cons, ih]
    constructor
    · rintro (⟨hlast, rfl⟩ | ⟨before, b, later, rfl, hlast, rfl⟩)
      · exact ⟨[], first, bs, rfl, hlast, by rw [List.append_nil]⟩
      · exact ⟨first :: before, b, later, rfl, hlast, by rw [List.append_assoc]; rfl⟩
    · rintro ⟨before, b, later, hsplit, hlast, rfl⟩
      cases before with
      | nil =>
        cases hsplit
        exact .inl ⟨hlast, by rw [List.append_nil]⟩
      | cons first before =>
        cases hsplit
        exact .inr ⟨before, b, later, rfl, hlast, by rw [List.append_assoc]; rfl⟩

/-- One more binding takes the place of what its name was bound to, and comes last. -/
theorem live_append_singleton :
    live earlier (bs ++ [b]) =
      (live earlier bs).filter (·.name ≠ b.name) ++ [b.symbol (count (earlier ++ bs))] := by
  induction bs generalizing earlier with
  | nil => simp [live]
  | cons first bs ih =>
    have hreplaced : first.name ∈ (bs ++ [b]).map Binding.name ↔
        first.name ∈ bs.map Binding.name ∨ first.name = b.name := by simp
    have hbefore : earlier ++ first :: bs = earlier ++ [first] ++ bs := by simp
    rw [List.cons_append, live, live, ih, hbefore]
    by_cases hlater : first.name ∈ bs.map Binding.name
    · rw [if_pos (hreplaced.2 (.inl hlater)), if_pos hlater]
    · rw [if_neg hlater, List.filter_cons]
      by_cases hname : first.name = b.name
      · rw [if_pos (hreplaced.2 (.inr hname))]
        simp [symbol, hname]
      · rw [if_neg (mt hreplaced.1 (not_or.2 ⟨hlater, hname⟩))]
        simp [symbol, hname]

theorem name_mem_of_mem_live (h : symbol ∈ live earlier bs) :
    symbol.name ∈ bs.map Binding.name := by
  obtain ⟨before, b, later, rfl, -, rfl⟩ := mem_live_iff.1 h
  simp [symbol]

theorem nodup_map_name_live : ((live earlier bs).map Symbol.name).Nodup := by
  induction bs generalizing earlier with
  | nil => exact List.nodup_nil
  | cons first bs ih =>
    rw [live]
    split
    · exact ih
    · next hlast =>
      rw [List.map_cons, List.nodup_cons]
      refine ⟨?_, ih⟩
      intro hmem
      obtain ⟨symbol, hsymbol, hname⟩ := List.mem_map.1 hmem
      rw [← show symbol.name = first.name from hname] at hlast
      exact hlast (name_mem_of_mem_live hsymbol)

/-- The number of a live symbol is at least the number of bindings of its kind before it. -/
theorem count_le_ordinal (h : symbol ∈ live earlier bs) (hslot : symbol.slot? = some slot) :
    count earlier slot ≤ symbol.ordinal := by
  obtain ⟨before, b, later, -, -, rfl⟩ := mem_live_iff.1 h
  rw [ordinal_symbol hslot, count, count, List.countP_append]
  exact Nat.le_add_right _ _

/-- Live symbols of a kind stand in the order of their numbers. -/
theorem pairwise_live (slot : Slot) :
    ((live earlier bs).filter (·.slot? = some slot)).Pairwise (·.ordinal < ·.ordinal) := by
  induction bs generalizing earlier with
  | nil => exact .nil
  | cons first bs ih =>
    rw [live]
    split
    · exact ih
    · rw [List.filter_cons]
      split
      · next hslot =>
        have hslot : first.slot? = some slot := of_decide_eq_true hslot
        refine List.pairwise_cons.2 ⟨?_, ih⟩
        intro symbol hsymbol
        obtain ⟨hmem, hkind⟩ := List.mem_filter.1 hsymbol
        have hle := count_le_ordinal hmem (of_decide_eq_true hkind)
        rw [count_append_singleton, if_pos hslot] at hle
        rw [ordinal_symbol hslot]
        exact hle
      · exact ih

end Binding

/-- Whether a scope came about by some bindings. -/
structure Scope.Records (s : Scope) (bs : List Binding) : Prop where
  next_eq : ∀ slot, s.next slot = Binding.count bs slot
  get?_eq_some_iff : ∀ {name symbol},
    s.get? name = some symbol ↔ symbol ∈ Binding.live [] bs ∧ symbol.name = name

namespace Scope.Records

variable {s : Scope} {bs : List Binding} {b : Binding} {slot : Slot}

theorem empty (name : String) (returns : Option Ty) (parent : Option ScopeId) :
    (Scope.empty name returns parent).Records [] := by
  constructor
  · intro slot
    cases slot <;> rfl
  · simp [Binding.live]

theorem bind (h : s.Records bs) (b : Binding) : (s.bind b).Records (bs ++ [b]) := by
  have hnext : s.next = Binding.count bs := funext h.next_eq
  constructor
  · intro slot
    rw [s.next_bind, h.next_eq, Binding.count_append_singleton]
  · intro name symbol
    rw [s.get?_bind, Binding.live_append_singleton, List.mem_append, List.mem_filter,
      List.mem_singleton, List.nil_append, hnext]
    by_cases hname : b.name = name
    · subst hname
      rw [if_pos rfl, Option.some.injEq]
      constructor
      · rintro rfl
        exact ⟨.inr rfl, rfl⟩
      · rintro ⟨⟨-, hother⟩ | rfl, hsame⟩
        · exact absurd hsame (of_decide_eq_true hother)
        · rfl
    · rw [if_neg hname, h.get?_eq_some_iff]
      constructor
      · rintro ⟨hmem, rfl⟩
        exact ⟨.inl ⟨hmem, decide_eq_true (Ne.symm hname)⟩, rfl⟩
      · rintro ⟨⟨hmem, -⟩ | rfl, hsame⟩
        · exact ⟨hmem, hsame⟩
        · exact absurd hsame hname

variable (h : s.Records bs)
include h

theorem mem_allSymbols_iff {symbol : Symbol} :
    symbol ∈ s.allSymbols ↔ symbol ∈ Binding.live [] bs := by
  simp only [Scope.allSymbols, List.mem_map, Prod.exists, exists_eq_right,
    Std.ExtTreeMap.mem_toList_iff_getElem?_eq_some]
  constructor
  · rintro ⟨name, hname⟩
    exact (h.get?_eq_some_iff.1 hname).1
  · intro hmem
    exact ⟨symbol.name, h.get?_eq_some_iff.2 ⟨hmem, rfl⟩⟩

theorem nodup_allSymbols : s.allSymbols.Nodup := by
  have hname {entry : String × Symbol} (hentry : entry ∈ s.symbols.toList) :
      entry.2.name = entry.1 :=
    (h.get?_eq_some_iff.1 (Std.ExtTreeMap.mem_toList_iff_getElem?_eq_some.1 hentry)).2
  rw [Scope.allSymbols, List.Nodup, List.pairwise_map]
  refine Std.ExtTreeMap.distinct_keys_toList.imp_of_mem ?_
  intro entry entry' hentry hentry' hne heq
  rw [← hname hentry, ← hname hentry', heq] at hne
  exact hne (Std.LawfulEqCmp.compare_eq_iff_eq.2 rfl)

/-- A scope has the live symbols, if in another order. -/
theorem perm_allSymbols : s.allSymbols.Perm (Binding.live [] bs) :=
  (List.perm_ext_iff_of_nodup h.nodup_allSymbols Binding.nodup_map_name_live.of_map).2
    fun _ ↦ h.mem_allSymbols_iff

end Scope.Records

theorem Scope.sorted_byOrdinal (symbols : List Symbol) :
    (Scope.byOrdinal symbols).Pairwise (·.ordinal ≤ ·.ordinal) := by
  apply Ordered.pairwise_sort
  · exact fun _ _ _ ↦ Nat.le_trans
  · exact fun _ _ ↦ of_decide_eq_true
  · exact fun _ _ hbehind ↦ Nat.le_of_not_le (of_decide_eq_false hbehind)

/-- There is one order only in which the numbers of some symbols grow. -/
theorem eq_of_sorted {xs ys : List Symbol} (hxs : xs.Pairwise (·.ordinal ≤ ·.ordinal))
    (hperm : xs.Perm ys) (hys : ys.Pairwise (·.ordinal < ·.ordinal)) : xs = ys := by
  have hne : xs.Pairwise (·.ordinal ≠ ·.ordinal) :=
    (hperm.pairwise_iff Ne.symm).2 (hys.imp Nat.ne_of_lt)
  have hlt : xs.Pairwise (·.ordinal < ·.ordinal) :=
    (hxs.and hne).imp fun h ↦ Nat.lt_of_le_of_ne h.1 h.2
  exact hperm.eq_of_pairwise (fun _ _ _ _ hlt hlt' ↦ absurd hlt' (Nat.lt_asymm hlt)) hlt hys

theorem Symbol.slot?_eq_param (symbol : Symbol) :
    decide (symbol.slot? = some .param) = symbol.isParam := by
  obtain ⟨name, type, isParam, ordinal⟩ := symbol
  match isParam, type with
  | true, _ | false, none | false, some (.prim _) | false, some (.func _) => rfl

/-- A variable of a primitive type is listed among the variables. -/
theorem Symbol.listed_of_slot?_eq_var (symbol : Symbol) :
    (decide (symbol.slot? = some .var) && (!symbol.isParam && !symbol.isFunction)) =
      decide (symbol.slot? = some .var) := by
  obtain ⟨name, type, isParam, ordinal⟩ := symbol
  match isParam, type with
  | true, _ | false, none | false, some (.prim _) | false, some (.func _) => rfl

theorem Scope.Records.parameters_eq {s : Scope} {bs : List Binding} (h : s.Records bs) :
    s.parameters = (Binding.live [] bs).filter (·.slot? = some .param) := by
  refine eq_of_sorted (Scope.sorted_byOrdinal _) ?_ (Binding.pairwise_live .param)
  simp only [Symbol.slot?_eq_param]
  exact (Ordered.perm_sort _ _).trans (h.perm_allSymbols.filter _)

theorem Scope.Records.vars_eq {s : Scope} {bs : List Binding} (h : s.Records bs) :
    s.vars.filter (·.slot? = some .var) =
      (Binding.live [] bs).filter (·.slot? = some .var) := by
  refine eq_of_sorted ((Scope.sorted_byOrdinal _).filter _) ?_ (Binding.pairwise_live .var)
  refine ((Ordered.perm_sort _ _).filter _).trans ?_
  rw [List.filter_filter]
  simp only [Symbol.listed_of_slot?_eq_var]
  exact h.perm_allSymbols.filter _

theorem Scope.Records.changeAt {s : Scope} {bs : List Binding} (h : s.Records bs) (op : ScopeOp)
    (next id : ScopeId) :
    (op.changeAt next id s).Records (bs ++ (op.bindingAt? id).toList) := by
  unfold ScopeOp.changeAt ScopeOp.bindingAt?
  split
  · cases op with
    | child parent name returns =>
      rw [ScopeOp.binding?, Option.toList_none, List.append_nil]
      exact ⟨h.next_eq, h.get?_eq_some_iff⟩
    | define id name type => exact h.bind ⟨false, name, type⟩
    | param id name type => exact h.bind ⟨true, name, type⟩
  · rwa [Option.toList_none, List.append_nil]

namespace ScopeTable

variable {t u : ScopeTable} {op : ScopeOp} {ops more : List ScopeOp}

/-- Whether the scopes of a table came about by what some operations bind. -/
structure Recorded (t : ScopeTable) (ops : List ScopeOp) : Prop where
  target_lt : ∀ op ∈ ops, op.target < t.size
  records : ∀ {id s}, t.scope? id = some s → s.Records (ScopeOp.bindingsAt id ops)

theorem recorded_initial : initial.Recorded [] := by
  refine ⟨by simp, ?_⟩
  intro id s hs
  obtain rfl : id = 0 := Nat.lt_one_iff.1 (lt_size_of_scope? hs)
  cases hs
  exact .empty _ _ _

theorem Recorded.apply (h : t.Recorded ops) (hop : op.target < t.size) :
    (t.apply op).Recorded (ops ++ [op]) := by
  have htargets : ∀ op' ∈ ops ++ [op], op'.target < t.size := by
    rw [List.forall_mem_append, List.forall_mem_singleton]
    exact ⟨h.target_lt, hop⟩
  refine ⟨fun op' hop' ↦ Nat.lt_of_lt_of_le (htargets op' hop') (size_le_apply t op), ?_⟩
  intro id s hs
  rcases scope?_apply_eq_some_iff.1 hs with ⟨old, hold, rfl⟩ | ⟨rfl, hmade⟩
  · have hbindings : ScopeOp.bindingsAt id (ops ++ [op]) =
        ScopeOp.bindingsAt id ops ++ (op.bindingAt? id).toList := by
      rw [ScopeOp.bindingsAt, List.filterMap_append, ScopeOp.bindingsAt, List.filterMap_cons]
      cases op.bindingAt? id <;> rfl
    rw [hbindings]
    exact (h.records hold).changeAt op t.size id
  · -- Nothing was bound yet in a scope that was just made.
    have hbindings : ScopeOp.bindingsAt t.size (ops ++ [op]) = [] :=
      List.filterMap_eq_nil_iff.2 fun op' hop' ↦ if_neg (Nat.ne_of_lt (htargets op' hop'))
    rw [hbindings]
    cases op with
    | child =>
      cases hmade
      exact .empty _ _ _
    | define | param => cases hmade

theorem Recorded.of_reaches (h : t.Recorded ops) (hreaches : t.Reaches more u) :
    u.Recorded (ops ++ more) := by
  induction hreaches generalizing ops with
  | nil => rwa [List.append_nil]
  | @cons t u op more hop _ ih =>
    have hall := ih (h.apply hop)
    rwa [List.append_assoc] at hall

end ScopeTable

/-- Whatever is done to a table of scopes, a scope binds a name to the symbol of the last binding of
that name. A parameter has for its number how many parameters were bound before it in its scope, a
variable of a primitive type how many of those, and anything else has the number zero. So
parameters, and variables of primitive types, are listed in the order in which they were bound, and
their numbers grow. -/
theorem ordinals_count_bindings {ops : List ScopeOp} {t : ScopeTable}
    (h : ScopeTable.initial.Reaches ops t) {id : ScopeId} {s : Scope} (hs : t.scope? id = some s) :
    (∀ name symbol, s.get? name = some symbol ↔
      ∃ earlier b later, ScopeOp.bindingsAt id ops = earlier ++ b :: later ∧ b.name = name ∧
        name ∉ later.map Binding.name ∧ symbol = b.symbol (Binding.count earlier)) ∧
    s.parameters =
      (Binding.live [] (ScopeOp.bindingsAt id ops)).filter (·.slot? = some .param) ∧
    s.vars.filter (·.slot? = some .var) =
      (Binding.live [] (ScopeOp.bindingsAt id ops)).filter (·.slot? = some .var) ∧
    s.parameters.Pairwise (·.ordinal < ·.ordinal) ∧
    (s.vars.filter (·.slot? = some .var)).Pairwise (·.ordinal < ·.ordinal) := by
  have hrecords := (ScopeTable.recorded_initial.of_reaches h).records hs
  rw [List.nil_append] at hrecords
  generalize ScopeOp.bindingsAt id ops = bs at hrecords ⊢
  refine ⟨fun name symbol ↦ ?_, hrecords.parameters_eq, hrecords.vars_eq, ?_, ?_⟩
  · rw [hrecords.get?_eq_some_iff, Binding.mem_live_iff]
    constructor
    · rintro ⟨⟨earlier, b, later, hsplit, hlast, rfl⟩, rfl⟩
      exact ⟨earlier, b, later, hsplit, rfl, hlast, rfl⟩
    · rintro ⟨earlier, b, later, hsplit, rfl, hlast, rfl⟩
      exact ⟨⟨earlier, b, later, hsplit, hlast, rfl⟩, rfl⟩
  · rw [hrecords.parameters_eq]
    exact Binding.pairwise_live .param
  · rw [hrecords.vars_eq]
    exact Binding.pairwise_live .var

/-- Numbers are not given again: neither that of a parameter whose name is taken by a variable, nor
that of a variable which is bound anew. -/
theorem ordinals_count_bindings_replaced :
    ∃ t s, ScopeTable.initial.Reaches [.child 0 "f" none, .param 1 "a" (some .int),
        .param 1 "b" (some .int), .define 1 "a" (some .int), .define 0 "a" (some .int),
        .define 1 "x" (some .error), .define 1 "a" (some .bool)] t ∧ t.scope? 1 = some s ∧
      s.parameters = [⟨"b", some .int, true, 1⟩] ∧
      s.vars.filter (·.slot? = some .var) =
        [⟨"x", some .error, false, 1⟩, ⟨"a", some .bool, false, 2⟩] := by
  obtain ⟨t, hreaches, s, hs⟩ : ∃ t, ScopeTable.initial.Reaches [.child 0 "f" none,
      .param 1 "a" (some .int), .param 1 "b" (some .int), .define 1 "a" (some .int),
      .define 0 "a" (some .int), .define 1 "x" (some .error), .define 1 "a" (some .bool)] t ∧
      ∃ s, t.scope? 1 = some s :=
    ⟨_, .cons (by decide) (.cons (by decide) (.cons (by decide) (.cons (by decide)
      (.cons (by decide) (.cons (by decide) (.cons (by decide) .nil)))))), _, rfl⟩
  obtain ⟨-, hparams, hvars, -⟩ := ordinals_count_bindings hreaches hs
  exact ⟨t, s, hreaches, hs, hparams.trans (by decide), hvars.trans (by decide)⟩

end ScriptAnalysis
