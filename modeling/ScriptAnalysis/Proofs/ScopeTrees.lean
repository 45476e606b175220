import Mathlib.Data.List.Nodup
import ScriptAnalysis.Proofs.ScopeOperations
import ScriptAnalysis.Scope.Outline

/-!
# Tables of scopes are trees

However a table was made, the scopes around a scope come before it, up to the global scope, and a
scope knows under each name the latest of its children. So looking outwards ends at the global
scope, and an outline shows every scope it reaches just once.
-/

namespace ScriptAnalysis

open ScopeTable (globalId globalName)

theorem join_flatMap {α : Type} (f : α → List String) (xs : List α) :
    String.join (xs.flatMap f) = String.join (xs.map fun x ↦ String.join (f x)) := by
  induction xs with
  | nil => rfl
  | cons x xs ih => rw [List.flatMap_cons, String.join_append, ih, List.map_cons, String.join_cons]

theorem Scope.mem_childIds_iff {s : Scope} {child : ScopeId} :
    child ∈ s.childIds ↔ ∃ name : String, s.children[name]? = some child := by
  simp [Scope.childIds]

namespace ScopeTable

/-- Whether a scope was made inside another under a name. -/
def ChildOf (t : ScopeTable) (id : ScopeId) (name : String) (child : ScopeId) : Prop :=
  ∃ s, t.scope? child = some s ∧ s.name = name ∧ s.parent = some id

/-- Whether a scope is the last that was made inside another under a name. -/
def LastChildOf (t : ScopeTable) (id : ScopeId) (name : String) (child : ScopeId) : Prop :=
  t.ChildOf id name child ∧ ∀ other, t.ChildOf id name other → other ≤ child

structure TreeShaped (t : ScopeTable) : Prop where
  size_pos : 0 < t.size
  parent_eq_none_iff : ∀ {id s}, t.scope? id = some s → (s.parent = none ↔ id = globalId)
  parent_lt : ∀ {id s parent}, t.scope? id = some s → s.parent = some parent → parent < id
  children_iff : ∀ {id s name child}, t.scope? id = some s →
    (s.children[name]? = some child ↔ t.LastChildOf id name child)

variable {t u : ScopeTable} {op : ScopeOp} {ops : List ScopeOp} {id child : ScopeId} {s : Scope}
  {name : String}

theorem lt_size_of_scope? (h : t.scope? id = some s) : id < t.size :=
  (List.getElem?_eq_some_iff.1 h).1

theorem exists_scope? (h : id < t.size) : ∃ s, t.scope? id = some s :=
  ⟨_, List.getElem?_eq_getElem h⟩

theorem treeShaped_initial : initial.TreeShaped := by
  have honly {id : ScopeId} {s : Scope} (h : initial.scope? id = some s) :
      id = globalId ∧ s = Scope.empty globalName none none := by
    have hlt : id < 1 := lt_size_of_scope? h
    obtain rfl : id = 0 := Nat.lt_one_iff.1 hlt
    exact ⟨rfl, (Option.some.inj h).symm⟩
  refine ⟨Nat.one_pos, ?_, ?_, ?_⟩
  · intro id s hs
    obtain ⟨rfl, rfl⟩ := honly hs
    exact iff_of_true rfl rfl
  · intro id s parent hs hparent
    obtain ⟨rfl, rfl⟩ := honly hs
    cases hparent
  · intro id s name child hs
    obtain ⟨rfl, rfl⟩ := honly hs
    refine iff_of_false (by simp [Scope.empty]) ?_
    rintro ⟨⟨s, hs, -, hparent⟩, -⟩
    obtain ⟨rfl, rfl⟩ := honly hs
    cases hparent

theorem ChildOf.lt (ht : t.TreeShaped) (h : t.ChildOf id name child) :
    id < child ∧ child < t.size := by
  obtain ⟨s, hs, -, hparent⟩ := h
  exact ⟨ht.parent_lt hs hparent, lt_size_of_scope? hs⟩

/-- The children there were are still there, and there may be one that an operation made. -/
theorem childOf_apply_iff :
    (t.apply op).ChildOf id name child ↔
      t.ChildOf id name child ∨ child = t.size ∧ ∃ returns, op = .child id name returns := by
  constructor
  · rintro ⟨s, hs, hname, hparent⟩
    rcases scope?_apply_eq_some_iff.1 hs with ⟨old, hold, rfl⟩ | ⟨rfl, hmade⟩
    · have hheader := @ScopeOp.header_changeAt op t.size child old
      exact .inl ⟨old, hold, (congrArg Scope.Header.name hheader).symm.trans hname,
        (congrArg Scope.Header.parent hheader).symm.trans hparent⟩
    · cases op with
      | child parent name' returns =>
        cases hmade
        cases hname
        cases hparent
        exact .inr ⟨rfl, returns, rfl⟩
      | define | param => cases hmade
  · rintro (⟨s, hs, hname, hparent⟩ | ⟨rfl, returns, rfl⟩)
    · obtain ⟨s', hs', hheader, -⟩ := t.grows_apply op child s hs
      exact ⟨s', hs', (congrArg Scope.Header.name hheader).trans hname,
        (congrArg Scope.Header.parent hheader).trans hparent⟩
    · exact ⟨_, scope?_apply_eq_some_iff.2 (.inr ⟨rfl, rfl⟩), rfl, rfl⟩

/-- A scope that was there knows the latest of its children after an operation. -/
theorem TreeShaped.children_changeAt_iff (ht : t.TreeShaped) (hs : t.scope? id = some s) :
    (op.changeAt t.size id s).children[name]? = some child ↔
      (t.apply op).LastChildOf id name child := by
  by_cases hnew : ∃ returns, op = .child id name returns
  · -- The new scope is the latest, as the others come before it.
    obtain ⟨returns, rfl⟩ := hnew
    have hmade : (t.apply (.child id name returns)).ChildOf id name t.size :=
      childOf_apply_iff.2 (.inr ⟨rfl, returns, rfl⟩)
    have hle {other : ScopeId} (h : (t.apply (.child id name returns)).ChildOf id name other) :
        other ≤ t.size := by
      rcases childOf_apply_iff.1 h with h | ⟨rfl, -⟩
      · exact Nat.le_of_lt (h.lt ht).2
      · exact Nat.le_refl _
    have hlast : (t.apply (.child id name returns)).LastChildOf id name child ↔ t.size = child :=
      ⟨fun h ↦ Nat.le_antisymm (h.2 _ hmade) (hle h.1), fun h ↦ h ▸ ⟨hmade, fun _ ↦ hle⟩⟩
    have hchange : (ScopeOp.child id name returns).changeAt t.size id s = s.addChild name t.size :=
      if_pos rfl
    rw [hlast, hchange, Scope.children_addChild, if_pos rfl, Option.some.injEq]
  · have hsame (other : ScopeId) : (t.apply op).ChildOf id name other ↔ t.ChildOf id name other := by
      rw [childOf_apply_iff, and_comm, or_iff_left fun h ↦ hnew h.1]
    have hlast : (t.apply op).LastChildOf id name child ↔ t.LastChildOf id name child := by
      simp only [LastChildOf, hsame]
    rw [hlast, ← ht.children_iff hs,
      ScopeOp.children_changeAt fun returns hop ↦ hnew ⟨returns, hop⟩]

theorem TreeShaped.apply (ht : t.TreeShaped) (hop : op.target < t.size) :
    (t.apply op).TreeShaped := by
  have hmade {s : Scope} (h : op.made? = some s) :
      s.parent = some op.target ∧ s.children = ∅ := by
    cases op with
    | child =>
      cases h
      exact ⟨rfl, rfl⟩
    | define | param => cases h
  have hparent (id : ScopeId) (s : Scope) : (op.changeAt t.size id s).parent = s.parent :=
    congrArg Scope.Header.parent ScopeOp.header_changeAt
  have hlt {id : ScopeId} {s : Scope} {parent : ScopeId} (hs : (t.apply op).scope? id = some s)
      (h : s.parent = some parent) : parent < id := by
    rcases scope?_apply_eq_some_iff.1 hs with ⟨old, hold, rfl⟩ | ⟨rfl, hnew⟩
    · rw [hparent] at h
      exact ht.parent_lt hold h
    · rw [(hmade hnew).1] at h
      cases h
      exact hop
  refine ⟨Nat.lt_of_lt_of_le ht.size_pos (size_le_apply t op), ?_, hlt, ?_⟩
  · intro id s hs
    rcases scope?_apply_eq_some_iff.1 hs with ⟨old, hold, rfl⟩ | ⟨rfl, hnew⟩
    · rw [hparent]
      exact ht.parent_eq_none_iff hold
    · rw [(hmade hnew).1]
      exact iff_of_false (Option.some_ne_none _) (Nat.ne_of_gt ht.size_pos)
  · intro id s name child hs
    rcases scope?_apply_eq_some_iff.1 hs with ⟨old, hold, rfl⟩ | ⟨rfl, hnew⟩
    · exact ht.children_changeAt_iff hold
    · -- Nothing lies inside a scope that was just made.
      rw [(hmade hnew).2]
      refine iff_of_false (by simp) ?_
      rintro ⟨⟨inner, hinner, -, hinside⟩, -⟩
      have hbehind : t.size < child := hlt hinner hinside
      rcases scope?_apply_eq_some_iff.1 hinner with ⟨old, hold, -⟩ | ⟨rfl, -⟩
      · exact Nat.lt_asymm hbehind (lt_size_of_scope? hold)
      · exact Nat.lt_irrefl _ hbehind

theorem TreeShaped.of_reaches (h : initial.Reaches ops t) : t.TreeShaped :=
  h.induction treeShaped_initial fun _ _ ht hop ↦ ht.apply hop

/-! ## Looking outwards -/

/-- Whether a list leads from a scope through the scopes around it to one that has none. -/
inductive Chain (t : ScopeTable) : ScopeId → List ScopeId → Prop
  | last {id : ScopeId} {s : Scope} (h : t.scope? id = some s) (hparent : s.parent = none) :
      Chain t id [id]
  | inner {id parent : ScopeId} {s : Scope} {rest : List ScopeId} (h : t.scope? id = some s)
      (hparent : s.parent = some parent) (hrest : Chain t parent rest) : Chain t id (id :: rest)

variable {chain chain' : List ScopeId}

theorem Chain.eq (h : t.Chain id chain) (h' : t.Chain id chain') : chain = chain' := by
  induction h generalizing chain' with
  | last h hparent =>
    cases h' with
    | last => rfl
    | inner h' hparent' =>
      rw [h] at h'
      cases h'
      rw [hparent] at hparent'
      cases hparent'
  | inner h hparent _ ih =>
    cases h' with
    | last h' hparent' =>
      rw [h] at h'
      cases h'
      rw [hparent] at hparent'
      cases hparent'
    | inner h' hparent' hrest' =>
      rw [h] at h'
      cases h'
      rw [hparent] at hparent'
      cases hparent'
      rw [ih hrest']

theorem Chain.getLast? (ht : t.TreeShaped) (h : t.Chain id chain) :
    chain.getLast? = some globalId := by
  induction h with
  | last h hparent => rw [(ht.parent_eq_none_iff h).1 hparent, List.getLast?_singleton]
  | inner _ _ hrest ih =>
    rw [List.getLast?_cons, ih]
    rfl

/-- The count of steps that is allowed suffices, as positions only get smaller. -/
theorem TreeShaped.chain_outwardUpTo (ht : t.TreeShaped) {count : Nat} (hs : t.scope? id = some s)
    (hcount : id < count) : t.Chain id (t.outwardUpTo count id) := by
  induction count generalizing id s with
  | zero => exact absurd hcount (Nat.not_lt_zero id)
  | succ count ih =>
    cases hparent : s.parent with
    | none =>
      simp only [outwardUpTo, hs, hparent]
      exact .last hs hparent
    | some parent =>
      simp only [outwardUpTo, hs, hparent]
      have hlt : parent < id := ht.parent_lt hs hparent
      obtain ⟨s', hs'⟩ := exists_scope? (Nat.lt_trans hlt (lt_size_of_scope? hs))
      exact .inner hs hparent (ih hs' (Nat.lt_of_lt_of_le hlt (Nat.le_of_lt_succ hcount)))

theorem TreeShaped.chain_outward (ht : t.TreeShaped) (hid : id < t.size) :
    t.Chain id (t.outward id) := by
  obtain ⟨s, hs⟩ := exists_scope? hid
  exact ht.chain_outwardUpTo hs hid

theorem Chain.resolve?_eq (ht : t.TreeShaped) (h : t.Chain id chain) (name : String) :
    t.resolve? id name = chain.findSome? fun i ↦ t.local? i name := by
  have hid : id < t.size := by
    cases h with
    | last hs | inner hs => exact lt_size_of_scope? hs
  rw [resolve?, (ht.chain_outward hid).eq h]

/-- Whether a scope is reached from another by some steps to registered children. -/
inductive Below (t : ScopeTable) : ScopeId → Nat → ScopeId → Prop
  | self {id : ScopeId} (h : id < t.size) : Below t id 0 id
  | step {id child other : ScopeId} {name : String} {steps : Nat}
      (h : t.childNamed? id name = some child) (hbelow : Below t child steps other) :
      Below t id (steps + 1) other

/-- The scopes that an outline shows in their order, each with its depth. -/
def visitsUpTo (t : ScopeTable) : Nat → Nat → ScopeId → List (Nat × ScopeId)
  | 0, _, _ => []
  | levels + 1, depth, id =>
    match t.scope? id with
    | none => []
    | some s => (depth, id) :: s.childIds.flatMap (t.visitsUpTo levels (depth + 1))

/-- The lines of an outline that are about one scope. -/
def outlineAt (t : ScopeTable) (depth : Nat) (id : ScopeId) : String :=
  ((t.scope? id).map (Scope.outline depth)).getD ""

theorem outlineUpTo_eq (t : ScopeTable) (levels depth : Nat) (id : ScopeId) :
    t.outlineUpTo levels depth id =
      String.join ((t.visitsUpTo levels depth id).map fun visit ↦ t.outlineAt visit.1 visit.2) := by
  induction levels generalizing depth id with
  | zero => rfl
  | succ levels ih =>
    cases hs : t.scope? id with
    | none => simp [outlineUpTo, visitsUpTo, hs]
    | some s =>
      have hat : t.outlineAt depth id = s.outline depth := by simp [outlineAt, hs]
      have hbelow : t.outlineUpTo levels (depth + 1) = fun child ↦ String.join
          ((t.visitsUpTo levels (depth + 1) child).map fun visit ↦ t.outlineAt visit.1 visit.2) :=
        funext (ih (depth + 1))
      simp only [outlineUpTo, visitsUpTo, hs, List.map_cons, String.join_cons, List.map_flatMap,
        join_flatMap, hat, hbelow]

theorem Below.lt_size {steps : Nat} {other : ScopeId} (h : t.Below id steps other) :
    id < t.size := by
  cases h with
  | self h => exact h
  | step h =>
    obtain ⟨s, hs, -⟩ := Option.bind_eq_some_iff.1 h
    exact lt_size_of_scope? hs

theorem Below.le (ht : t.TreeShaped) {steps : Nat} {other : ScopeId} (h : t.Below id steps other) :
    id ≤ other := by
  induction h with
  | self => exact Nat.le_refl _
  | step h _ ih =>
    obtain ⟨s, hs, hname⟩ := Option.bind_eq_some_iff.1 h
    have hlt := (((ht.children_iff hs).1 hname).1.lt ht).1
    exact Nat.le_trans (Nat.le_of_lt hlt) ih

theorem TreeShaped.size_le_of_mem_childIds (ht : t.TreeShaped) (hs : t.scope? id = some s)
    {levels : Nat} (hlevels : t.size ≤ levels + 1 + id) (h : child ∈ s.childIds) :
    t.size ≤ levels + child := by
  obtain ⟨name, hname⟩ := Scope.mem_childIds_iff.1 h
  have hlt : id < child := (((ht.children_iff hs).1 hname).1.lt ht).1
  rw [Nat.add_assoc, Nat.add_comm 1] at hlevels
  exact Nat.le_trans hlevels (Nat.add_le_add_left hlt levels)

/-- The levels that are allowed suffice, as positions only get greater. -/
theorem TreeShaped.mem_visitsUpTo_iff (ht : t.TreeShaped) {levels depth : Nat}
    (hlevels : t.size ≤ levels + id) {visit : Nat × ScopeId} :
    visit ∈ t.visitsUpTo levels depth id ↔
      ∃ steps, visit.1 = depth + steps ∧ t.Below id steps visit.2 := by
  induction levels generalizing depth id with
  | zero =>
    refine iff_of_false List.not_mem_nil ?_
    rintro ⟨steps, -, hbelow⟩
    exact Nat.not_lt.2 (Nat.zero_add id ▸ hlevels) hbelow.lt_size
  | succ levels ih =>
    cases hs : t.scope? id with
    | none =>
      simp only [visitsUpTo, hs]
      refine iff_of_false List.not_mem_nil ?_
      rintro ⟨steps, -, hbelow⟩
      exact Nat.not_lt.2 (List.getElem?_eq_none_iff.1 hs) hbelow.lt_size
    | some s =>
      have hchild {child : ScopeId} (h : child ∈ s.childIds) : t.size ≤ levels + child :=
        ht.size_le_of_mem_childIds hs hlevels h
      simp only [visitsUpTo, hs, List.mem_cons, List.mem_flatMap]
      constructor
      · rintro (rfl | ⟨child, hmem, hvisit⟩)
        · exact ⟨0, rfl, .self (lt_size_of_scope? hs)⟩
        · obtain ⟨steps, hdepth, hbelow⟩ := (ih (hchild hmem)).1 hvisit
          obtain ⟨name, hname⟩ := Scope.mem_childIds_iff.1 hmem
          exact ⟨steps + 1, by omega, .step ((childNamed?_of_scope? hs).trans hname) hbelow⟩
      · rintro ⟨steps, hdepth, hbelow⟩
        cases hbelow with
        | self => exact .inl (Prod.ext hdepth rfl)
        | @step _ child _ name steps h hbelow =>
          rw [childNamed?_of_scope? hs] at h
          have hmem : child ∈ s.childIds := Scope.mem_childIds_iff.2 ⟨name, h⟩
          exact .inr ⟨child, hmem, (ih (hchild hmem)).2 ⟨steps, by omega, hbelow⟩⟩

/-- A scope below another has the scopes around it behind those in between. -/
theorem Below.exists_chain (ht : t.TreeShaped) {steps : Nat} {other : ScopeId}
    (h : t.Below id steps other) (hchain : t.Chain id chain) :
    ∃ inner, t.Chain other (inner ++ chain) := by
  induction h generalizing chain with
  | self => exact ⟨[], hchain⟩
  | @step id child other name steps h _ ih =>
    obtain ⟨s, hs, hname⟩ := Option.bind_eq_some_iff.1 h
    obtain ⟨⟨inner, hinner, -, hparent⟩, -⟩ := (ht.children_iff hs).1 hname
    obtain ⟨between, hbetween⟩ := ih (.inner hinner hparent hchain)
    exact ⟨between ++ [child], by simpa using hbetween⟩

/-- What lies below one child of a scope does not lie below another. -/
theorem Below.child_eq (ht : t.TreeShaped) {steps steps' : Nat} {child' other : ScopeId}
    {name' : String} (hchild : t.ChildOf id name child) (hchild' : t.ChildOf id name' child')
    (h : t.Below child steps other) (h' : t.Below child' steps' other) : child = child' := by
  have hid : id < t.size := Nat.lt_trans (hchild.lt ht).1 (hchild.lt ht).2
  have houtward := ht.chain_outward hid
  obtain ⟨s, hs, -, hparent⟩ := hchild
  obtain ⟨s', hs', -, hparent'⟩ := hchild'
  obtain ⟨inner, hinner⟩ := h.exists_chain ht (.inner hs hparent houtward)
  obtain ⟨inner', hinner'⟩ := h'.exists_chain ht (.inner hs' hparent' houtward)
  have htails := (List.append_inj' (hinner.eq hinner') rfl).2
  exact (List.cons.inj htails).1

theorem TreeShaped.nodup_childIds (ht : t.TreeShaped) (hs : t.scope? id = some s) :
    s.childIds.Nodup := by
  unfold Scope.childIds
  rw [List.Nodup, List.pairwise_map]
  refine Std.ExtTreeMap.distinct_keys_toList.imp_of_mem ?_
  rintro ⟨name, child⟩ ⟨name', child'⟩ hmem hmem' hne rfl
  obtain ⟨⟨s₁, hs₁, hname, -⟩, -⟩ := (ht.children_iff hs).1
    (Std.ExtTreeMap.mem_toList_iff_getElem?_eq_some.1 hmem)
  obtain ⟨⟨s₂, hs₂, hname', -⟩, -⟩ := (ht.children_iff hs).1
    (Std.ExtTreeMap.mem_toList_iff_getElem?_eq_some.1 hmem')
  rw [hs₁] at hs₂
  cases hs₂
  exact hne (Std.LawfulEqCmp.compare_eq_iff_eq.2 (hname.symm.trans hname'))

theorem TreeShaped.nodup_visitsUpTo (ht : t.TreeShaped) {levels depth : Nat}
    (hlevels : t.size ≤ levels + id) : ((t.visitsUpTo levels depth id).map Prod.snd).Nodup := by
  induction levels generalizing depth id with
  | zero => exact List.nodup_nil
  | succ levels ih =>
    cases hs : t.scope? id with
    | none =>
      simp only [visitsUpTo, hs]
      exact List.nodup_nil
    | some s =>
      have hchild {child : ScopeId} (h : child ∈ s.childIds) : t.size ≤ levels + child :=
        ht.size_le_of_mem_childIds hs hlevels h
      have hmem {child other : ScopeId} (h : child ∈ s.childIds)
          (hother : other ∈ (t.visitsUpTo levels (depth + 1) child).map Prod.snd) :
          (∃ name, t.ChildOf id name child) ∧ ∃ steps, t.Below child steps other := by
        obtain ⟨visit, hvisit, rfl⟩ := List.mem_map.1 hother
        obtain ⟨name, hname⟩ := Scope.mem_childIds_iff.1 h
        obtain ⟨steps, -, hbelow⟩ := (ht.mem_visitsUpTo_iff (hchild h)).1 hvisit
        exact ⟨⟨name, ((ht.children_iff hs).1 hname).1⟩, steps, hbelow⟩
      simp only [visitsUpTo, hs, List.map_cons, List.map_flatMap]
      rw [List.nodup_cons, List.nodup_flatMap]
      refine ⟨?_, fun child h ↦ ih (hchild h), (ht.nodup_childIds hs).imp_of_mem ?_⟩
      · -- What lies below a child comes behind the scope itself.
        rw [List.mem_flatMap]
        rintro ⟨child, h, hother⟩
        obtain ⟨⟨name, hname⟩, steps, hbelow⟩ := hmem h hother
        exact Nat.not_lt.2 (hbelow.le ht) (hname.lt ht).1
      · intro child child' h h' hne other hother hother'
        obtain ⟨⟨name, hname⟩, steps, hbelow⟩ := hmem h hother
        obtain ⟨⟨name', hname'⟩, steps', hbelow'⟩ := hmem h' hother'
        exact hne (hbelow.child_eq ht hname hname' hbelow')

theorem TreeShaped.exists_visits (ht : t.TreeShaped) (id : ScopeId) :
    ∃ visits : List (Nat × ScopeId),
      t.outline id = String.join (visits.map fun visit ↦ t.outlineAt visit.1 visit.2) ∧
        (visits.map Prod.snd).Nodup ∧
          ∀ depth other, (depth, other) ∈ visits ↔ t.Below id depth other := by
  have hlevels : t.size ≤ t.size + id := Nat.le_add_right _ _
  refine ⟨t.visitsUpTo t.size 0 id, t.outlineUpTo_eq t.size 0 id, ht.nodup_visitsUpTo hlevels, ?_⟩
  intro depth other
  rw [ht.mem_visitsUpTo_iff hlevels]
  simp

end ScopeTable

end ScriptAnalysis
