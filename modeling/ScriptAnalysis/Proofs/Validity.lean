import Mathlib
import ScriptAnalysis.Proofs.Written

/-!
# Valid programs are the well-formed ones

The second walk takes the definitions in their order, each in the scope that the first walk made for
it, and then the main part. While names are distinct, the walk through one definition leaves the
scopes of the others as they were. So a program that was read from a source is walked to its end,
and it is reported valid exactly if it is well formed.
-/

namespace ScriptAnalysis

open ScopeTable (globalId mainName)

section

variable {α : Type}

theorem mapM_eq_some_map {β γ : Type} {f : β → Option γ} {g : β → γ} {bs : List β}
    (h : ∀ b ∈ bs, f b = some (g b)) : bs.mapM f = some (bs.map g) := by
  induction bs with
  | nil => rfl
  | cons b bs ih =>
    rw [List.forall_mem_cons] at h
    rw [List.mapM_cons, h.1, ih h.2]
    rfl

theorem writtenType?_of_isSome {name : String} (h : (writtenType? name).isSome = true) :
    writtenType? name = some (Prim.declared name) := by
  obtain ⟨type, htype⟩ := Option.isSome_iff_exists.1 h
  rw [htype, Prim.declared_of_writtenType? htype]

theorem writtenReturn?_of_isSome {name : String} (h : (writtenReturn? name).isSome = true) :
    writtenReturn? name = some (Prim.declared name) ∧ Prim.declared name ≠ .error := by
  unfold writtenReturn? at h ⊢
  by_cases hname : name = ""
  · subst hname
    exact ⟨by decide, by decide⟩
  · rw [if_neg hname] at h ⊢
    have htype := writtenType?_of_isSome h
    exact ⟨htype, writtenType?_ne_error htype⟩

namespace FuncDef

variable {f : FuncDef α}

theorem Written.writtenSignature?_eq (h : f.Written) : f.writtenSignature? = some f.signature := by
  have hparams : f.params.mapM (fun p ↦ writtenType? p.type) =
      some (f.params.map fun p ↦ Prim.declared p.type) := by
    apply mapM_eq_some_map
    intro p hp
    exact writtenType?_of_isSome (h.params p hp).2
  unfold writtenSignature?
  rw [hparams, (writtenReturn?_of_isSome h.returns).1]
  rfl

theorem Written.returns_ne_error (h : f.Written) : f.signature.returns ≠ .error :=
  (writtenReturn?_of_isSome h.returns).2

theorem Written.params_ne_error (h : f.Written) : ∀ type ∈ f.signature.params, type ≠ .error := by
  intro type htype
  obtain ⟨p, hp, rfl⟩ := List.mem_map.1 htype
  exact writtenType?_ne_error (writtenType?_of_isSome (h.params p hp).2)

/-- The context in which the body of a definition begins. -/
def context (functions : List (String × Signature)) (f : FuncDef α) : Context :=
  ⟨(f.params.map Param.name).zip f.signature.params, functions⟩

/-- The functions by their names, each with its signature. -/
def bindings (fs : List (FuncDef α)) : List (String × Signature) :=
  (fs.map FuncDef.name).zip (fs.map FuncDef.signature)

theorem Written.wellTyped_iff (h : f.Written) (functions : List (String × Signature)) :
    f.WellTyped functions ↔ (f.params.map Param.name).Nodup ∧
      f.body.WellTyped (f.context functions) f.signature.returns := by
  unfold FuncDef.WellTyped context
  simp only [h.writtenSignature?_eq, Option.some.injEq, exists_eq_left']

theorem Written.context_proper (h : f.Written) {functions : List (String × Signature)}
    (hfunctions : ∀ g ∈ functions, g.2.returns ≠ .error) : (f.context functions).Proper :=
  ⟨fun _ hp ↦ h.params_ne_error _ (List.of_mem_zip hp).2, hfunctions⟩

theorem bindings_proper {fs : List (FuncDef α)} (h : ∀ f ∈ fs, f.Written) :
    ∀ g ∈ bindings fs, g.2.returns ≠ .error := by
  intro g hg
  obtain ⟨f, hf, hsignature⟩ := List.mem_map.1 (List.of_mem_zip hg).2
  rw [← hsignature]
  exact (h f hf).returns_ne_error

end FuncDef

theorem Script.Written.wellFormed_iff {s : Script α} (h : s.Written) :
    s.WellFormed ↔ (s.funcs.map FuncDef.name).Nodup ∧
      (∀ f ∈ s.funcs, f.WellTyped (FuncDef.bindings s.funcs)) ∧
      ∀ main ∈ s.main, main.WellTyped ⟨[], FuncDef.bindings s.funcs⟩ .void := by
  have hsignatures := mapM_eq_some_map fun f hf ↦ (h.1 f hf).writtenSignature?_eq
  unfold Script.WellFormed FuncDef.bindings
  simp only [hsignatures, Option.some.injEq, exists_eq_left']

end

/-- Whether names are distinct and none was seen before. -/
def Fresh (seen names : List String) : Prop := names.Nodup ∧ ∀ name ∈ names, name ∉ seen

theorem fresh_nil {names : List String} : Fresh [] names ↔ names.Nodup := by simp [Fresh]

theorem fresh_cons {seen names : List String} {name : String} :
    Fresh seen (name :: names) ↔ name ∉ seen ∧ Fresh (name :: seen) names := by
  unfold Fresh
  rw [List.nodup_cons, List.forall_mem_cons]
  constructor
  · intro h
    have hlater : ∀ name' ∈ names, name' ∉ name :: seen := by
      intro name' hmem hseen
      rcases List.mem_cons.1 hseen with heq | hseen
      · exact h.1.1 (heq ▸ hmem)
      · exact h.2.2 name' hmem hseen
    exact ⟨h.2.1, h.1.2, hlater⟩
  · intro h
    have hnew : name ∉ names := fun hmem ↦ h.2.2 name hmem List.mem_cons_self
    have hlater : ∀ name' ∈ names, name' ∉ seen := fun name' hmem hseen ↦
      h.2.2 name' hmem (List.mem_cons_of_mem _ hseen)
    exact ⟨⟨hnew, h.2.1⟩, h.1, hlater⟩

variable {options : Options} {t : ScopeTable} {id id' : ScopeId}

theorem Options.silent_verdict_if {node : Tag} {p : Prop} [Decidable p] {violation : Violation}
    (h : violation ≠ .parenthesizedError) :
    options.Silent (verdict node (if p then some violation else none)) ↔ ¬ p := by
  rw [Options.silent_verdict]
  · by_cases hp : p <;> simp [hp]
  · by_cases hp : p <;> simp [hp, h]

theorem Param.silent_duplicates_iff {function : String} {seen : List String}
    {ps : List (Param Tag)} :
    options.Silent (Param.duplicates function seen ps) ↔ Fresh seen (ps.map Param.name) := by
  induction ps generalizing seen with
  | nil => simp [Param.duplicates, Fresh]
  | cons p ps ih =>
    rw [Param.duplicates, Options.silent_append, Options.silent_verdict_if (by simp), ih,
      List.map_cons, fresh_cons]

/-- Whether a global scope binds just these functions, none of which returns `error`. -/
structure Scope.Hosts (g : Scope) (functions : List (String × Signature)) : Prop where
  parent : g.parent = none
  binds : g.BindsFunctions functions
  proper : ∀ b ∈ functions, b.2.returns ≠ .error

section

variable {name : String} {walk : ScopeId → Walk}

theorem ScopeTable.within_of_child (h : t.childNamed? globalId name = some id) :
    (t.within name walk).scopes = (walk id).scopes ∧
      (t.within name walk).fault = (walk id).fault := by
  unfold ScopeTable.within
  rw [h]
  exact ⟨rfl, rfl⟩

theorem ScopeTable.silent_within_iff (h : t.childNamed? globalId name = some id) :
    options.Silent (t.within name walk).events ↔ options.Silent (walk id).events := by
  unfold ScopeTable.within
  rw [h]
  cases hfault : (walk id).fault <;> simp [hfault, Event.entry?]

end

theorem Param.name_ne_of_mem_locals {seen : List String} {ps : List (Param Tag)}
    (h : ∀ p ∈ ps, p.name ≠ "") : ∀ l ∈ Param.locals t id seen ps, l.name ≠ "" := by
  induction ps generalizing seen with
  | nil => simp [Param.locals]
  | cons p ps ih =>
    rw [List.forall_mem_cons] at h
    unfold Param.locals
    simp only
    split
    · exact List.forall_mem_cons.2 ⟨h.1, ih h.2⟩
    · exact ih h.2

namespace FuncDef

variable {f : FuncDef Tag} {seen : List String}

theorem silent_fallThrough (returns : Option Ty) : options.Silent (f.fallThrough returns) := by
  apply Options.silent_of_entry?_eq_none
  unfold FuncDef.fallThrough
  split
  · simp
  · simp [Event.entry?]

theorem fault_check {shadowed : Bool} (h : f.Written)
    (hchild : t.childNamed? globalId f.name = some id) :
    (f.check t seen shadowed).fault = none := by
  unfold FuncDef.check
  cases shadowed with
  | true => rfl
  | false =>
    refine (ScopeTable.within_of_child hchild).2.trans ?_
    apply Body.fault_check
    · exact Param.name_ne_of_mem_locals fun p hp ↦ (h.params p hp).1
    · exact fun d hd ↦ (h.body d hd).1

theorem scope?_check_ne {shadowed : Bool} (hchild : t.childNamed? globalId f.name = some id)
    (hne : id' ≠ id) : (f.check t seen shadowed).scopes.scope? id' = t.scope? id' := by
  unfold FuncDef.check
  cases shadowed with
  | true => rfl
  | false =>
    refine (congrArg (·.scope? id') (ScopeTable.within_of_child hchild).1).trans ?_
    exact Body.scope?_check_ne hne

/-- A definition whose name came before is reported whether it is walked or not. -/
theorem notMem_of_silent_check {shadowed : Bool}
    (h : options.Silent (f.check t seen shadowed).events) : f.name ∉ seen := by
  have hreport : options.Silent
      (verdict f.note (if f.name ∈ seen then some (.duplicateFunction f.name) else none)) := by
    unfold FuncDef.check at h
    cases shadowed with
    | true => exact (Options.silent_append.1 (Options.silent_append.1 h).1).1
    | false => exact (Options.silent_append.1 (Options.silent_append.1 h).1).1
  exact (Options.silent_verdict_if (by simp)).1 hreport

theorem ownScope_bindsLocals (hnodup : (f.params.map Param.name).Nodup) :
    f.ownScope.BindsLocals ((f.params.map Param.name).zip f.signature.params) := by
  intro name
  unfold FuncDef.ownScope
  rw [Param.map_get?_foldl_declareIn hnodup (by simp)]
  unfold FuncDef.signature
  split
  · next type htype => rw [htype]; rfl
  · next hnone => rw [hnone]; simp

theorem Written.holds (h : f.Written) {g : Scope} {functions : List (String × Signature)}
    (hnodup : (f.params.map Param.name).Nodup) (hne : id ≠ globalId)
    (hown : t.scope? id = some f.ownScope) (hg : t.scope? globalId = some g)
    (hhosts : g.Hosts functions) :
    t.Holds id f.signature.returns (f.context functions) := by
  have hkeeps := Param.parent_foldl_declareIn
    (Scope.empty f.name (some (.prim f.signature.returns)) (some globalId)) f.params
  exact ⟨hne, ⟨f.ownScope, hown, hkeeps.1, hkeeps.2, ownScope_bindsLocals hnodup⟩,
    ⟨g, hg, hhosts.parent, hhosts.binds⟩, h.context_proper hhosts.proper⟩

/-- A definition that is walked in its own scope reports nothing exactly if its name is new and it
is well typed among the functions. -/
theorem Written.silent_check_iff (h : f.Written) {g : Scope} {functions : List (String × Signature)}
    (hne : id ≠ globalId) (hchild : t.childNamed? globalId f.name = some id)
    (hown : t.scope? id = some f.ownScope) (hg : t.scope? globalId = some g)
    (hhosts : g.Hosts functions) :
    options.Silent (f.check t seen false).events ↔ f.name ∉ seen ∧ f.WellTyped functions := by
  have hbody (hnodup : (f.params.map Param.name).Nodup) :
      options.Silent (f.body.check t id (Param.locals t id [] f.params)
        (f.fallThrough (t.setting id).returns)).events ↔
          f.body.WellTyped (f.context functions) f.signature.returns :=
    Body.silent_check_iff (h.holds hnodup hne hown hg hhosts)
      (fun d hd ↦ (h.body d hd).2) (silent_fallThrough _)
  unfold FuncDef.check
  simp only [Bool.false_eq_true, if_false]
  rw [Options.silent_append, Options.silent_append, ScopeTable.silent_within_iff hchild,
    Options.silent_verdict_if (by simp), Param.silent_duplicates_iff, fresh_nil, and_assoc,
    h.wellTyped_iff]
  exact and_congr_right fun _ ↦ and_congr_right hbody

end FuncDef

theorem Walk.andThen_of_fault {w : Walk} {next : ScopeTable → Walk} (h : w.fault = none) :
    w.andThen next =
      ⟨(next w.scopes).scopes, w.events ++ (next w.scopes).events, (next w.scopes).fault⟩ := by
  unfold Walk.andThen
  rw [h]

section

variable {g : Scope} {fs : List (FuncDef Tag)} {seen : List String} {next : ScopeId}

/-- Whatever names the definitions have, their walk comes to its end, and it reports a name that
comes again. -/
theorem FuncDef.checkAll_of_children (hfs : ∀ f ∈ fs, f.Written) (hg : t.scope? globalId = some g)
    (hchildren : ∀ f ∈ fs, ∃ id, id ≠ globalId ∧ g.children[f.name]? = some id) :
    (FuncDef.checkAll t seen fs).fault = none ∧
      (FuncDef.checkAll t seen fs).scopes.scope? globalId = some g ∧
      (options.Silent (FuncDef.checkAll t seen fs).events → Fresh seen (fs.map FuncDef.name)) := by
  induction fs generalizing t seen with
  | nil => exact ⟨rfl, hg, fun _ ↦ by simp [Fresh]⟩
  | cons f fs ih =>
    rw [List.forall_mem_cons] at hfs hchildren
    obtain ⟨id, hne, hid⟩ := hchildren.1
    have hchild : t.childNamed? globalId f.name = some id :=
      (ScopeTable.childNamed?_of_scope? hg).trans hid
    have hfault : (f.check t seen (fs.any (·.name = f.name))).fault = none :=
      FuncDef.fault_check hfs.1 hchild
    have hkept : (f.check t seen (fs.any (·.name = f.name))).scopes.scope? globalId = some g :=
      (FuncDef.scope?_check_ne hchild hne.symm).trans hg
    obtain ⟨hfault', hkept', hfresh⟩ := @ih _ (f.name :: seen) hfs.2 hkept hchildren.2
    rw [FuncDef.checkAll, Walk.andThen_of_fault hfault]
    refine ⟨hfault', hkept', fun hsilent ↦ ?_⟩
    rw [Options.silent_append] at hsilent
    exact fresh_cons.2 ⟨FuncDef.notMem_of_silent_check hsilent.1, hfresh hsilent.2⟩

/-- Whether definitions wait to be walked in scopes of their own that begin at `next`. -/
structure ScopeTable.Awaits (t : ScopeTable) (g : Scope) (next : ScopeId)
    (fs : List (FuncDef Tag)) : Prop where
  pos : globalId < next
  outer : t.scope? globalId = some g
  child : ∀ i f, fs[i]? = some f → g.children[f.name]? = some (next + i)
  own : ∀ i f, fs[i]? = some f → t.scope? (next + i) = some f.ownScope

theorem ScopeTable.Awaits.childNamed? {f : FuncDef Tag} (h : t.Awaits g next (f :: fs)) :
    t.childNamed? globalId f.name = some next :=
  (ScopeTable.childNamed?_of_scope? h.outer).trans (h.child 0 f rfl)

/-- The walk through a definition leaves the others waiting. -/
theorem ScopeTable.Awaits.check {f : FuncDef Tag} (h : t.Awaits g next (f :: fs)) :
    (f.check t seen false).scopes.Awaits g (next + 1) fs := by
  have hkept {id : ScopeId} (hne : id ≠ next) :
      (f.check t seen false).scopes.scope? id = t.scope? id :=
    FuncDef.scope?_check_ne h.childNamed? hne
  have hshift (i : Nat) : next + 1 + i = next + (i + 1) := Nat.add_right_comm next 1 i
  refine ⟨Nat.lt_succ_of_lt h.pos, (hkept (Nat.ne_of_lt h.pos)).trans h.outer, ?_, ?_⟩
  · intro i f' hf'
    rw [hshift]
    exact h.child (i + 1) f' hf'
  · intro i f' hf'
    rw [hshift, hkept (Nat.ne_of_gt (Nat.lt_add_of_pos_right (Nat.succ_pos i)))]
    exact h.own (i + 1) f' hf'

/-- Definitions with names of their own are walked without a report exactly if they are well typed,
and the scopes behind theirs are left as they were. -/
theorem ScopeTable.Awaits.silent_checkAll_iff {functions : List (String × Signature)}
    (h : t.Awaits g next fs) (hhosts : g.Hosts functions) (hfs : ∀ f ∈ fs, f.Written)
    (hfresh : Fresh seen (fs.map FuncDef.name)) :
    (options.Silent (FuncDef.checkAll t seen fs).events ↔ ∀ f ∈ fs, f.WellTyped functions) ∧
      ∀ id, next + fs.length ≤ id →
        (FuncDef.checkAll t seen fs).scopes.scope? id = t.scope? id := by
  induction fs generalizing t seen next with
  | nil => exact ⟨by simp [FuncDef.checkAll], fun _ _ ↦ rfl⟩
  | cons f fs ih =>
    rw [List.forall_mem_cons] at hfs
    have hname : fs.any (·.name = f.name) = false := by
      have hnotMem : f.name ∉ fs.map FuncDef.name := (List.nodup_cons.1 hfresh.1).1
      simpa using hnotMem
    rw [List.map_cons, fresh_cons] at hfresh
    have hfirst : options.Silent (f.check t seen false).events ↔
        f.name ∉ seen ∧ f.WellTyped functions :=
      hfs.1.silent_check_iff (Nat.ne_of_gt h.pos) h.childNamed? (h.own 0 f rfl) h.outer hhosts
    have hwaiting : (f.check t seen false).scopes.Awaits g (next + 1) fs := h.check
    obtain ⟨hsilent, hkept⟩ := ih hwaiting hfs.2 hfresh.2
    have hfault : (f.check t seen false).fault = none :=
      FuncDef.fault_check hfs.1 h.childNamed?
    rw [FuncDef.checkAll, hname, Walk.andThen_of_fault hfault]
    constructor
    · rw [Options.silent_append, hfirst, hsilent, and_iff_right hfresh.1, List.forall_mem_cons]
    · intro id hid
      rw [List.length_cons] at hid
      have hid' : next + 1 + fs.length ≤ id := by
        rw [Nat.add_right_comm]
        exact hid
      have hne : id ≠ next := Nat.ne_of_gt (Nat.lt_of_lt_of_le (by omega) hid)
      exact (hkept id hid').trans (FuncDef.scope?_check_ne h.childNamed? hne)

end

section

variable {b : Body Tag}

theorem Body.fault_checkMain (hb : b.Written) (hchild : t.childNamed? globalId mainName = some id) :
    (b.checkMain t).fault = none := by
  refine (ScopeTable.within_of_child hchild).2.trans ?_
  apply Body.fault_check
  · simp
  · exact fun d hd ↦ (hb d hd).1

theorem ScopeTable.holds_main {g : Scope} {functions : List (String × Signature)}
    (hne : id ≠ globalId)
    (hown : t.scope? id = some (Scope.empty mainName (some .void) (some globalId)))
    (hg : t.scope? globalId = some g) (hhosts : g.Hosts functions) :
    t.Holds id .void ⟨[], functions⟩ := by
  have hlocals : (Scope.empty mainName (some .void) (some globalId)).BindsLocals [] := by
    intro name
    rw [Scope.get?_empty]
    rfl
  exact ⟨hne, ⟨_, hown, rfl, rfl, hlocals⟩, ⟨g, hg, hhosts.parent, hhosts.binds⟩, by simp,
    hhosts.proper⟩

theorem Body.silent_checkMain_iff {g : Scope} {functions : List (String × Signature)}
    (hb : b.Written) (hne : id ≠ globalId) (hchild : t.childNamed? globalId mainName = some id)
    (hown : t.scope? id = some (Scope.empty mainName (some .void) (some globalId)))
    (hg : t.scope? globalId = some g) (hhosts : g.Hosts functions) :
    options.Silent (b.checkMain t).events ↔ b.WellTyped ⟨[], functions⟩ .void := by
  have hholds := ScopeTable.holds_main hne hown hg hhosts
  unfold Body.checkMain
  rw [ScopeTable.silent_within_iff hchild]
  exact Body.silent_check_iff hholds (fun d hd ↦ (hb d hd).2) Options.silent_nil

end

/-! ## Programs -/

namespace Script

/-- The global scope after the first walk. -/
def globalScope (s : Script Tag) : Scope :=
  let bound := (Scope.empty ScopeTable.globalName none none).bindFunctions 1 s.funcs
  match s.main with
  | none => bound
  | some _ => bound.addChild mainName (1 + s.funcs.length)

variable {s : Script Tag}

theorem globalScope_of_notMain {name : String} (h : name ≠ mainName) :
    s.globalScope.children[name]? =
      ((Scope.empty ScopeTable.globalName none none).bindFunctions 1 s.funcs).children[name]? := by
  unfold globalScope
  cases s.main with
  | none => rfl
  | some main => exact (Scope.children_addChild _ _ _ _).trans (if_neg h.symm)

theorem globalScope_hosts (h : ∀ f ∈ s.funcs, f.Written)
    (hnodup : (s.funcs.map FuncDef.name).Nodup) :
    s.globalScope.Hosts (FuncDef.bindings s.funcs) := by
  let bound := (Scope.empty ScopeTable.globalName none none).bindFunctions 1 s.funcs
  have hparent : s.globalScope.parent = bound.parent := by
    unfold globalScope
    cases s.main <;> rfl
  have hget (name : String) : s.globalScope.get? name = bound.get? name := by
    unfold globalScope
    cases s.main <;> rfl
  refine ⟨hparent.trans (Scope.parent_bindFunctions _ _ _), ?_, FuncDef.bindings_proper h⟩
  intro name
  rw [hget, Scope.map_get?_bindFunctions _ _ hnodup]
  unfold FuncDef.bindings
  split
  · next signature hsignature => rw [hsignature]; rfl
  · next hnone => rw [hnone]; simp

theorem one_add_ne_globalId (count : Nat) : 1 + count ≠ globalId :=
  Nat.ne_of_gt (Nat.lt_add_right count Nat.one_pos)

theorem exists_child (hfs : ∀ f ∈ s.funcs, f.Written) :
    ∀ f ∈ s.funcs, ∃ id, id ≠ globalId ∧ s.globalScope.children[f.name]? = some id := by
  intro f hf
  obtain ⟨id, hle, hid⟩ := Scope.exists_child_bindFunctions
    (Scope.empty ScopeTable.globalName none none) 1 (List.mem_map_of_mem hf)
  rw [← globalScope_of_notMain (hfs f hf).name] at hid
  exact ⟨id, Nat.ne_of_gt hle, hid⟩

theorem childNamed?_main {main : Body Tag} (hmain : s.main = some main)
    (hg : t.scope? globalId = some s.globalScope) :
    t.childNamed? globalId mainName = some (1 + s.funcs.length) := by
  rw [ScopeTable.childNamed?_of_scope? hg]
  unfold globalScope
  rw [hmain]
  exact (Scope.children_addChild _ _ _ _).trans (if_pos rfl)

/-- What the first walk leaves for the second. -/
structure LaidOut (s : Script Tag) (t : ScopeTable) : Prop where
  outer : t.scope? globalId = some s.globalScope
  own : ∀ i f, s.funcs[i]? = some f → t.scope? (1 + i) = some f.ownScope
  main : s.main.isSome = true →
    t.scope? (1 + s.funcs.length) = some (Scope.empty mainName (some .void) (some globalId))

theorem declare_laidOut (s : Script Tag) : s.LaidOut (s.declare .initial).scopes := by
  obtain ⟨hfault, hextends⟩ := @FuncDef.declareAll_extends .initial _ rfl s.funcs
  have hsize : (FuncDef.declareAll .initial s.funcs).scopes.size = 1 + s.funcs.length :=
    hextends.size
  rw [Script.declare, Walk.andThen_of_fault hfault]
  cases hmain : s.main with
  | none =>
    refine ⟨?_, hextends.own, by simp [hmain]⟩
    unfold globalScope
    rw [hmain]
    exact hextends.outer
  | some main =>
    have hscope (id : ScopeId) := ScopeTable.scope?_addChild
      (FuncDef.declareAll .initial s.funcs).scopes globalId id mainName (some .void)
    rw [hsize] at hscope
    refine ⟨?_, ?_, fun _ ↦ (hscope _).trans (if_pos rfl)⟩
    · refine (hscope _).trans ?_
      rw [if_neg (one_add_ne_globalId _).symm, ScopeTable.scope?_modify, if_pos rfl,
        hextends.outer]
      unfold globalScope
      rw [hmain]
      rfl
    · intro i f hf
      have hlt : i < s.funcs.length := (List.getElem?_eq_some_iff.1 hf).1
      have hne : 1 + i ≠ 1 + s.funcs.length := fun heq ↦ Nat.ne_of_lt hlt (Nat.add_left_cancel heq)
      refine (hscope _).trans ?_
      rw [if_neg hne, ScopeTable.scope?_modify, if_neg (one_add_ne_globalId i).symm]
      exact hextends.own i f hf

namespace LaidOut

theorem awaits (h : s.LaidOut t) (hfs : ∀ f ∈ s.funcs, f.Written)
    (hnodup : (s.funcs.map FuncDef.name).Nodup) : t.Awaits s.globalScope 1 s.funcs := by
  refine ⟨Nat.one_pos, h.outer, ?_, h.own⟩
  intro i f hf
  rw [globalScope_of_notMain (hfs f (List.mem_of_getElem? hf)).name]
  exact Scope.children_bindFunctions _ _ hnodup hf

/-- A program whose scopes are laid out is walked to its end, and without a report exactly if it is
well formed. -/
theorem check (h : s.LaidOut t) (hs : s.Written) :
    (s.check t).fault = none ∧ (options.Silent (s.check t).events ↔ s.WellFormed) := by
  obtain ⟨hfault, hg, hfresh⟩ := @FuncDef.checkAll_of_children options t s.globalScope s.funcs []
    hs.1 h.outer (exists_child hs.1)
  rw [hs.wellFormed_iff, Script.check, Walk.andThen_of_fault hfault, Options.silent_append]
  -- Without distinct names there is a report, and the scopes need not be those of the definitions.
  have hfuncs (hnodup : (s.funcs.map FuncDef.name).Nodup) :=
    @ScopeTable.Awaits.silent_checkAll_iff options t s.globalScope s.funcs [] 1 _
      (h.awaits hs.1 hnodup) (globalScope_hosts hs.1 hnodup) hs.1 (fresh_nil.2 hnodup)
  have hnames := fun hsilent ↦ fresh_nil.1 (hfresh hsilent)
  cases hmain : s.main with
  | none =>
    refine ⟨rfl, ?_⟩
    simp only [Options.silent_nil, Option.not_mem_none, false_imp_iff, implies_true, and_true]
    exact ⟨fun hsilent ↦ ⟨hnames hsilent, (hfuncs (hnames hsilent)).1.1 hsilent⟩,
      fun hformed ↦ (hfuncs hformed.1).1.2 hformed.2⟩
  | some main =>
    have hbody : main.Written := hs.2 main hmain
    have hchild := childNamed?_main hmain hg
    refine ⟨Body.fault_checkMain hbody hchild, ?_⟩
    have hcheck (hnodup : (s.funcs.map FuncDef.name).Nodup) :
        options.Silent (main.checkMain (FuncDef.checkAll t [] s.funcs).scopes).events ↔
          main.WellTyped ⟨[], FuncDef.bindings s.funcs⟩ .void := by
      have hown := ((hfuncs hnodup).2 _ (Nat.le_refl _)).trans (h.main (by rw [hmain]; rfl))
      exact Body.silent_checkMain_iff hbody (one_add_ne_globalId _) hchild hown hg
        (globalScope_hosts hs.1 hnodup)
    simp only [Option.mem_some_iff, forall_eq']
    constructor
    · intro hsilent
      have hnodup := hnames hsilent.1
      exact ⟨hnodup, (hfuncs hnodup).1.1 hsilent.1, (hcheck hnodup).1 hsilent.2⟩
    · intro hformed
      exact ⟨(hfuncs hformed.1).1.2 hformed.2.1, (hcheck hformed.1).2 hformed.2.2⟩

end LaidOut

end Script

/-- Every program that a source spells is analyzed to its end, and whatever is to be reported or
warned of, the analysis finds it valid exactly if it is well formed. -/
theorem analyze_valid_iff_wellFormed {source : String} {s : Script Tag}
    (h : Script.parse source = .ok s) (options : Options) :
    (s.analyze options).fault = none ∧ ((s.analyze options).isOk = true ↔ s.WellFormed) := by
  have hwritten : s.Written := Script.written_of_parse h
  have hcheck := @Script.LaidOut.check options _ s s.declare_laidOut hwritten
  rw [Script.fault_analyze, Script.isOk_analyze_iff]
  exact hcheck

/-- A parameter may hide the function it belongs to. -/
theorem analyze_valid_iff_wellFormed_hiding :
    ∃ s, Script.parse "func f(f:Int):Int{return f}print f(1)" = .ok s ∧ s.WellFormed ∧
      ∀ options, (s.analyze options).isOk = true := by
  -- The shape of the tree is written out; its notes are what the source gives them.
  obtain ⟨_, _, _, _, _, _, _, _, _, _, _, _, _, _, hs⟩ : ∃ a b c d e f g h i j k l m n,
      Script.parse "func f(f:Int):Int{return f}print f(1)" =
        .ok ⟨a, [⟨b, "f", [⟨c, "f", "Int"⟩], "Int",
            ⟨d, ⟨e, []⟩, .mk f [.ret g (some (.ident h "f"))]⟩⟩],
          some ⟨i, ⟨j, []⟩, .mk k [.print l (.call m "f" [.int n "1"])]⟩⟩ := by
    refine ⟨?_, ?_, ?_, ?_, ?_, ?_, ?_, ?_, ?_, ?_, ?_, ?_, ?_, ?_, ?parse⟩
    case parse =>
      cbv
      rfl
  refine ⟨_, hs, ?formed, fun options ↦ (analyze_valid_iff_wellFormed hs options).2.2 ?formed⟩
  case formed =>
    refine ⟨by simp, [⟨[.int], .int⟩], rfl, ?_, ?_⟩
    · rw [List.forall_mem_singleton]
      refine ⟨by simp, ⟨[.int], .int⟩, rfl, _, .nil, ?_⟩
      exact .mk (.cons (.retValue (by decide) (.ident rfl)) .nil)
    · intro main hmain
      cases hmain
      exact ⟨_, .nil, .mk (.cons (.print (.call rfl (.cons .int .nil))) .nil)⟩

end ScriptAnalysis
