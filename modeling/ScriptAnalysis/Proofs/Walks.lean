import ScriptAnalysis.Proofs.Numbers
import ScriptAnalysis.Proofs.Validity

/-!
# How a program is walked

What the two walks do with the definitions of a program, whether their names are distinct or not.
The first walk makes a scope for each definition. The second walks the body of each definition that
is the last of its name, in the scope that the first made for it, and passes by the others.
-/

namespace ScriptAnalysis

open ScopeTable (globalId globalName mainName)

/-- Whether an element stands at a position and no later one has its name. -/
structure LastAt {α : Type} (name : α → String) (xs : List α) (i : Nat) (x : α) : Prop where
  get : xs[i]? = some x
  last : ∀ y ∈ xs.drop (i + 1), name y ≠ name x

section

variable {α : Type} {name : α → String} {x y : α} {xs : List α} {i : Nat}

theorem lastAt_zero : LastAt name (x :: xs) 0 y ↔ x = y ∧ name x ∉ xs.map name := by
  constructor
  · intro h
    obtain rfl : x = y := by simpa using h.get
    refine ⟨rfl, fun hmem ↦ ?_⟩
    obtain ⟨later, hlater, hname⟩ := List.mem_map.1 hmem
    exact h.last later hlater hname
  · rintro ⟨rfl, hname⟩
    refine ⟨rfl, fun later hlater heq ↦ hname ?_⟩
    rw [← heq]
    exact List.mem_map_of_mem hlater

theorem lastAt_succ : LastAt name (x :: xs) (i + 1) y ↔ LastAt name xs i y :=
  ⟨fun h ↦ ⟨h.get, h.last⟩, fun h ↦ ⟨h.get, h.last⟩⟩

/-- Every name in a list has a last element. -/
theorem exists_lastAt {n : String} (h : n ∈ xs.map name) :
    ∃ i x, LastAt name xs i x ∧ name x = n := by
  induction xs with
  | nil => simp at h
  | cons x xs ih =>
    by_cases hlater : n ∈ xs.map name
    · obtain ⟨i, y, hy, hname⟩ := ih hlater
      exact ⟨i + 1, y, lastAt_succ.2 hy, hname⟩
    · obtain rfl : n = name x := by
        rw [List.map_cons, List.mem_cons] at h
        exact h.resolve_right hlater
      exact ⟨0, x, lastAt_zero.2 ⟨rfl, hlater⟩, rfl⟩

end

section

variable {α : Type} {f : FuncDef α} {fs : List (FuncDef α)} {i : Nat}

/-- The last definition of a name has its scope and its signature in the global scope. -/
theorem Scope.bindFunctions_of_lastAt (outer : Scope) (next : ScopeId)
    (h : LastAt FuncDef.name fs i f) :
    (outer.bindFunctions next fs).children[f.name]? = some (next + i) ∧
      (outer.bindFunctions next fs).get? f.name =
        some ⟨f.name, some (.func f.signature), false, 0⟩ := by
  induction fs generalizing outer next i with
  | nil => simpa using h.get
  | cons first fs ih =>
    cases i with
    | zero =>
      obtain ⟨rfl, hname⟩ := lastAt_zero.1 h
      obtain ⟨hchild, hget⟩ := Scope.bindFunctions_of_notMem
        ((outer.define first.name (some (.func first.signature))).addChild first.name next)
        (next + 1) hname
      refine ⟨hchild.trans ?_, hget.trans ?_⟩
      · rw [Scope.children_addChild, if_pos rfl]
        rfl
      · rw [Scope.get?_addChild, Scope.get?_define, if_pos rfl]
        rfl
    | succ i =>
      have hlater := ih ((outer.define first.name (some (.func first.signature))).addChild
        first.name next) (next + 1) (lastAt_succ.1 h)
      rw [Nat.add_right_comm next 1 i] at hlater
      exact hlater

end

/-- The walk that declares the scopes of a node. -/
def Node.firstWalk (root : Node Tag) : Walk := root.declare .initial

/-- The walk that infers the types of a node, in the scopes that the first walk left. -/
def Node.secondWalk (root : Node Tag) : Walk := root.check root.firstWalk.scopes

/-- What happens in a scope, between entering and leaving it. -/
def Pass.around (pass : Pass) (name : String) (scope : ScopeId) (events : List Event) :
    List Event :=
  .entered pass name scope :: events ++ [.left pass name scope]

theorem Pass.infix_around (pass : Pass) (name : String) (scope : ScopeId) (events : List Event) :
    events <:+: pass.around name scope events :=
  ⟨[.entered pass name scope], [.left pass name scope], rfl⟩

theorem FuncDef.declareAll_events {t : ScopeTable} {g : Scope} (hg : t.scope? globalId = some g)
    (fs : List (FuncDef Tag)) :
    (FuncDef.declareAll t fs).events =
      (fs.zipIdx t.size).flatMap fun f ↦ Pass.declaring.around f.1.name f.2 [] := by
  induction fs generalizing t g with
  | nil => rfl
  | cons f fs ih =>
    have hextends := FuncDef.declare_extends hg f
    have hsize : (f.declare t).scopes.size = t.size + 1 := hextends.size
    have hscope : (t.define globalId f.name (some (.func f.signature))).nextId = t.size :=
      ScopeTable.size_modify _
    have hfirst : (f.declare t).events = Pass.declaring.around f.name t.size [] := by
      rw [FuncDef.declare, hscope]
      rfl
    rw [FuncDef.declareAll, Walk.andThen_of_fault rfl, List.zipIdx_cons, List.flatMap_cons, hfirst,
      ih hextends.outer, hsize]

/-- The type that a declaration binds its name to. -/
def VarDecl.bound (t : ScopeTable) (id : ScopeId) (d : VarDecl Tag) : Prim :=
  if (t.resolve? id d.name).isSome = true ∨
      ∃ e ∈ d.init, (e.infer (t.env id)).type ≠ .prim (Prim.declared d.type) then .error
  else Prim.declared d.type

/-- What a declaration leaves: a name that is bound already, or one whose value does not fit, is
bound to `error` and not watched. -/
theorem VarDecl.exists_check (t : ScopeTable) (id : ScopeId) (d : VarDecl Tag) :
    ∃ events, d.check t id = if (t.resolve? id d.name).isSome = true ∨
        ∃ e ∈ d.init, (e.infer (t.env id)).type ≠ .prim (Prim.declared d.type) then
      ⟨t.define id d.name (some .error), events, []⟩
    else ⟨t.define id d.name (some (.prim (Prim.declared d.type))), events,
      [⟨d.name, d.note.span⟩]⟩ := by
  cases hname : (t.resolve? id d.name).isSome with
  | true =>
    unfold VarDecl.check
    simp [hname]
  | false =>
    cases hinit : d.init with
    | none =>
      rw [VarDecl.check_of_init_eq_none hname hinit]
      simp
    | some e =>
      rw [VarDecl.check_of_init_eq_some hname hinit]
      by_cases htype : (e.infer (t.env id)).type = .prim (Prim.declared d.type) <;> simp [htype]

theorem VarDecl.scopes_check {t : ScopeTable} {id : ScopeId} (d : VarDecl Tag) :
    (d.check t id).scopes = t.define id d.name (some (.prim (d.bound t id))) := by
  obtain ⟨events, hcheck⟩ := d.exists_check t id
  rw [hcheck, VarDecl.bound]
  split <;> rfl

theorem VarDecl.locals_check {t : ScopeTable} {id : ScopeId} (d : VarDecl Tag) :
    (d.check t id).locals = if (t.resolve? id d.name).isSome = true ∨
        ∃ e ∈ d.init, (e.infer (t.env id)).type ≠ .prim (Prim.declared d.type) then []
      else [⟨d.name, d.note.span⟩] := by
  obtain ⟨events, hcheck⟩ := d.exists_check t id
  rw [hcheck]
  split <;> rfl

/-- Whether `s` is the scope `id` of a table, right inside the global scope `g`. -/
structure ScopeTable.Inside (t : ScopeTable) (id : ScopeId) (g s : Scope) : Prop where
  ne : id ≠ globalId
  inner : t.scope? id = some s
  parent : s.parent = some globalId
  outer : t.scope? globalId = some g
  top : g.parent = none

theorem ScopeTable.Inside.resolve? {t : ScopeTable} {id : ScopeId} {g s : Scope}
    (h : t.Inside id g s) (name : String) : t.resolve? id name = (s.get? name).or (g.get? name) :=
  ScopeTable.resolve?_of_child h.inner h.parent h.outer h.top h.ne

theorem ScopeTable.Inside.check {t : ScopeTable} {id : ScopeId} {g s : Scope}
    (h : t.Inside id g s) (d : VarDecl Tag) :
    (d.check t id).scopes.Inside id g (s.define d.name (some (.prim (d.bound t id)))) := by
  rw [d.scopes_check]
  exact ⟨h.ne, ScopeTable.scope?_define_self h.inner _, h.parent,
    (ScopeTable.scope?_define_ne h.ne.symm _).trans h.outer, h.top⟩

theorem VarDecl.size_checkAll {t : ScopeTable} {id : ScopeId} (ds : List (VarDecl Tag)) :
    (VarDecl.checkAll t id ds).scopes.size = t.size := by
  induction ds generalizing t with
  | nil => rfl
  | cons d ds ih =>
    rw [VarDecl.checkAll, ih, d.scopes_check]
    exact ScopeTable.size_modify _

theorem Body.size_check {t : ScopeTable} {id : ScopeId} {params : List Local}
    {closing : List Event} (body : Body Tag) :
    (body.check t id params closing).scopes.size = t.size := by
  rw [Body.check, scopes_closeLocals]
  exact VarDecl.size_checkAll body.vars.decls

/-! ## The second walk -/

/-- What is reported of a definition before its body is walked. -/
def FuncDef.reports (seen : List String) (f : FuncDef Tag) : List Event :=
  verdict f.note (if f.name ∈ seen then some (.duplicateFunction f.name) else none)
    ++ Param.duplicates f.name [] f.params

/-- The walk through the body of a definition in the scope `id`. -/
def FuncDef.checkBody (t : ScopeTable) (id : ScopeId) (f : FuncDef Tag) : Walk :=
  f.body.check t id (Param.locals t id [] f.params) (f.fallThrough (t.setting id).returns)

theorem ScopeTable.within_eq {t : ScopeTable} {name : String} {id : ScopeId}
    {walk : ScopeId → Walk} (hchild : t.childNamed? globalId name = some id)
    (hfault : (walk id).fault = none) :
    t.within name walk =
      ⟨(walk id).scopes, Pass.inferring.around name id (walk id).events, none⟩ := by
  unfold ScopeTable.within
  rw [hchild]
  simp only [hfault]
  rfl

theorem FuncDef.Written.fault_checkBody {f : FuncDef Tag} (h : f.Written) (t : ScopeTable)
    (id : ScopeId) : (f.checkBody t id).fault = none := by
  apply Body.fault_check
  · exact Param.name_ne_of_mem_locals fun p hp ↦ (h.params p hp).1
  · exact fun d hd ↦ (h.body d hd).1

/-- The second walk over definitions whose scopes begin at `next`, under the global scope `g`. The
scope of a definition that is the last of its name is still as the first walk left it. -/
inductive FuncDef.Run (g : Scope) : ScopeTable → List String → ScopeId → List (FuncDef Tag) →
    ScopeTable → List Event → Prop
  | nil {t : ScopeTable} {seen : List String} {next : ScopeId} : Run g t seen next [] t []
  | shadowed {t t' : ScopeTable} {seen : List String} {next : ScopeId} {f : FuncDef Tag}
      {fs : List (FuncDef Tag)} {events : List Event} (hname : f.name ∈ fs.map FuncDef.name)
      (later : Run g t (f.name :: seen) (next + 1) fs t' events) :
      Run g t seen next (f :: fs) t' (f.reports seen ++ [.skipped f.name f.note.line] ++ events)
  | last {t t' : ScopeTable} {seen : List String} {next : ScopeId} {f : FuncDef Tag}
      {fs : List (FuncDef Tag)} {events : List Event} (hname : f.name ∉ fs.map FuncDef.name)
      (hg : t.scope? globalId = some g) (hown : t.scope? next = some f.ownScope)
      (later : Run g (f.checkBody t next).scopes (f.name :: seen) (next + 1) fs t' events) :
      Run g t seen next (f :: fs) t'
        (f.reports seen ++ Pass.inferring.around f.name next (f.checkBody t next).events ++ events)

/-- Whether definitions are ready to be walked: the scopes that begin at `next` are theirs, and the
last of each name has its scope for the child of that name. -/
structure ScopeTable.Ready (t : ScopeTable) (g : Scope) (next : ScopeId)
    (fs : List (FuncDef Tag)) : Prop where
  pos : globalId < next
  outer : t.scope? globalId = some g
  child : ∀ i f, LastAt FuncDef.name fs i f → g.children[f.name]? = some (next + i)
  own : ∀ i f, fs[i]? = some f → t.scope? (next + i) = some f.ownScope

section

variable {g : Scope} {t t' : ScopeTable} {seen : List String} {next : ScopeId}
  {f : FuncDef Tag} {fs : List (FuncDef Tag)} {events : List Event}

/-- The others are still ready once the scope of the first may have changed. -/
theorem ScopeTable.Ready.rest (h : t.Ready g next (f :: fs))
    (hkept : ∀ id, id ≠ next → t'.scope? id = t.scope? id) : t'.Ready g (next + 1) fs := by
  have hshift (i : Nat) : next + 1 + i = next + (i + 1) := Nat.add_right_comm next 1 i
  refine ⟨Nat.lt_succ_of_lt h.pos, (hkept _ (Nat.ne_of_lt h.pos)).trans h.outer, ?_, ?_⟩
  · intro i f' hf'
    rw [hshift]
    exact h.child (i + 1) f' (lastAt_succ.2 hf')
  · intro i f' hf'
    rw [hshift, hkept _ (Nat.ne_of_gt (Nat.lt_add_of_pos_right (Nat.succ_pos i)))]
    exact h.own (i + 1) f' hf'

theorem FuncDef.run_checkAll (h : t.Ready g next fs) (hfs : ∀ f ∈ fs, f.Written) :
    (FuncDef.checkAll t seen fs).fault = none ∧
      FuncDef.Run g t seen next fs (FuncDef.checkAll t seen fs).scopes
        (FuncDef.checkAll t seen fs).events := by
  induction fs generalizing t seen next with
  | nil => exact ⟨rfl, .nil⟩
  | cons f fs ih =>
    rw [List.forall_mem_cons] at hfs
    by_cases hname : f.name ∈ fs.map FuncDef.name
    · have hany : fs.any (·.name = f.name) = true := by simpa using hname
      obtain ⟨hfault, hrun⟩ := @ih t (f.name :: seen) _ (h.rest fun _ _ ↦ rfl) hfs.2
      rw [FuncDef.checkAll, hany, Walk.andThen_of_fault rfl]
      exact ⟨hfault, .shadowed hname hrun⟩
    · have hany : fs.any (·.name = f.name) = false := by simpa using hname
      have hlast : LastAt FuncDef.name (f :: fs) 0 f := lastAt_zero.2 ⟨rfl, hname⟩
      have hchild : t.childNamed? globalId f.name = some next :=
        (ScopeTable.childNamed?_of_scope? h.outer).trans (h.child 0 f hlast)
      have hcheck : f.check t seen false = ⟨(f.checkBody t next).scopes,
          f.reports seen ++ Pass.inferring.around f.name next (f.checkBody t next).events,
          none⟩ := by
        unfold FuncDef.check
        rw [ScopeTable.within_eq hchild (hfs.1.fault_checkBody t next)]
        rfl
      obtain ⟨hfault, hrun⟩ := @ih (f.checkBody t next).scopes (f.name :: seen) _
        (h.rest fun _ hne ↦ Body.scope?_check_ne hne) hfs.2
      rw [FuncDef.checkAll, hany, hcheck, Walk.andThen_of_fault rfl]
      exact ⟨hfault, .last hname h.outer (h.own 0 f rfl) hrun⟩

namespace FuncDef.Run

/-- The walk changes no scope but those of the definitions. -/
theorem scope?_eq (h : FuncDef.Run g t seen next fs t' events) {id : ScopeId}
    (hid : id < next ∨ next + fs.length ≤ id) : t'.scope? id = t.scope? id := by
  have hlater {id next count : Nat} (hid : id < next ∨ next + (count + 1) ≤ id) :
      id ≠ next ∧ (id < next + 1 ∨ next + 1 + count ≤ id) := by
    omega
  induction h with
  | nil => rfl
  | shadowed hname later ih => exact ih (hlater hid).2
  | last hname hg hown later ih =>
    exact (ih (hlater hid).2).trans (Body.scope?_check_ne (hlater hid).1)

theorem size_eq (h : FuncDef.Run g t seen next fs t' events) : t'.size = t.size := by
  induction h with
  | nil => rfl
  | shadowed hname later ih => exact ih
  | @last t t' seen next f fs events hname hg hown later ih => exact ih.trans f.body.size_check

/-- The body of a last definition is walked in the scope that the first walk made for it, and no
later part of the walk changes that scope. -/
theorem visit (h : FuncDef.Run g t seen next fs t' events) {i : Nat} {f : FuncDef Tag}
    (hf : LastAt FuncDef.name fs i f) :
    ∃ u, u.scope? globalId = some g ∧ u.scope? (next + i) = some f.ownScope ∧
      Pass.inferring.around f.name (next + i) (f.checkBody u (next + i)).events <:+: events ∧
      t'.scope? (next + i) = (f.checkBody u (next + i)).scopes.scope? (next + i) := by
  have hshift (next i : Nat) : next + (i + 1) = next + 1 + i := (Nat.add_right_comm next 1 i).symm
  induction h generalizing i with
  | nil => simpa using hf.get
  | @shadowed t t' seen next first fs events hname later ih =>
    cases i with
    | zero =>
      obtain ⟨rfl, hlast⟩ := lastAt_zero.1 hf
      exact absurd hname hlast
    | succ i =>
      rw [hshift]
      obtain ⟨u, houter, hown, hevents, hscope⟩ := ih (lastAt_succ.1 hf)
      exact ⟨u, houter, hown, hevents.trans (List.suffix_append _ _).isInfix, hscope⟩
  | @last t t' seen next first fs events hname hg hown later ih =>
    cases i with
    | zero =>
      obtain ⟨rfl, -⟩ := lastAt_zero.1 hf
      refine ⟨t, hg, hown, ?_, later.scope?_eq (.inl (Nat.lt_succ_self next))⟩
      exact ⟨first.reports seen, events, rfl⟩
    | succ i =>
      rw [hshift]
      obtain ⟨u, houter, hown', hevents, hscope⟩ := ih (lastAt_succ.1 hf)
      exact ⟨u, houter, hown', hevents.trans (List.suffix_append _ _).isInfix, hscope⟩

end FuncDef.Run

end

/-- The scope of the main part after the first walk. -/
def Script.mainScope : Scope := Scope.empty mainName (some .void) (some globalId)

/-- The second walk over a program with the main part `b`: the definitions are walked with some
events and leave the table `mid`, and the main part is walked in the scope behind theirs. -/
structure Script.Tour (s : Script Tag) (b : Body Tag) (mid : ScopeTable) (events : List Event) :
    Prop where
  main : s.main = some b
  run : FuncDef.Run s.globalScope (Node.script s).firstWalk.scopes [] 1 s.funcs mid events
  outer : mid.scope? globalId = some s.globalScope
  own : mid.scope? (1 + s.funcs.length) = some mainScope
  check : (Node.script s).secondWalk =
    ⟨(b.check mid (1 + s.funcs.length) [] []).scopes,
      events ++ Pass.inferring.around mainName (1 + s.funcs.length)
        (b.check mid (1 + s.funcs.length) [] []).events, none⟩

theorem Script.LaidOut.ready {s : Script Tag} {t : ScopeTable} (h : s.LaidOut t)
    (hfs : ∀ f ∈ s.funcs, f.Written) : t.Ready s.globalScope 1 s.funcs := by
  refine ⟨Nat.one_pos, h.outer, ?_, h.own⟩
  intro i f hf
  rw [globalScope_of_notMain (hfs f (List.mem_of_getElem? hf.get)).name]
  exact (Scope.bindFunctions_of_lastAt _ _ hf).1

theorem Script.get?_globalScope {s : Script Tag} {name : String} {symbol : Symbol} :
    s.globalScope.get? name = some symbol ↔ ∃ i f, LastAt FuncDef.name s.funcs i f ∧ f.name = name ∧
      symbol = ⟨name, some (.func f.signature), false, 0⟩ := by
  let outer := Scope.empty globalName none none
  have hget : s.globalScope.get? name = (outer.bindFunctions 1 s.funcs).get? name := by
    unfold Script.globalScope
    cases s.main <;> rfl
  rw [hget]
  constructor
  · intro hsymbol
    by_cases hname : name ∈ s.funcs.map FuncDef.name
    · obtain ⟨i, f, hf, rfl⟩ := exists_lastAt hname
      rw [(outer.bindFunctions_of_lastAt 1 hf).2, Option.some.injEq] at hsymbol
      exact ⟨i, f, hf, rfl, hsymbol.symm⟩
    · rw [(outer.bindFunctions_of_notMem 1 hname).2, Scope.get?_empty] at hsymbol
      cases hsymbol
  · rintro ⟨i, f, hf, rfl, rfl⟩
    exact (outer.bindFunctions_of_lastAt 1 hf).2

/-- The first walk makes the scopes of the definitions in their order and then that of the main
part. -/
theorem Script.firstWalk_of_main {s : Script Tag} {b : Body Tag} (h : s.main = some b) :
    (Node.script s).firstWalk.fault = none ∧
      (Node.script s).firstWalk.scopes.size = 2 + s.funcs.length ∧
      (Node.script s).firstWalk.events =
        ((s.funcs.zipIdx 1).flatMap fun f ↦ Pass.declaring.around f.1.name f.2 []) ++
          Pass.declaring.around mainName (1 + s.funcs.length) [] := by
  obtain ⟨hfault, hextends⟩ := @FuncDef.declareAll_extends .initial _ rfl s.funcs
  have hevents := @FuncDef.declareAll_events .initial _ rfl s.funcs
  have hsize : (FuncDef.declareAll .initial s.funcs).scopes.size = 1 + s.funcs.length :=
    hextends.size
  change (s.declare .initial).fault = none ∧ (s.declare .initial).scopes.size = _ ∧
    (s.declare .initial).events = _
  rw [Script.declare, Walk.andThen_of_fault hfault]
  simp only [h]
  refine ⟨rfl, ?_, ?_⟩
  · rw [Body.declareMain, ScopeTable.size_addChild, hsize]
    exact Nat.add_right_comm 1 s.funcs.length 1
  · rw [Body.declareMain, ScopeTable.nextId, hsize, hevents]
    rfl

theorem Grammar.Program.exists_main {ts : List Token} {s : Script Extent} (h : Program ts s) :
    ∃ b, s.main = some b := by
  cases h
  exact ⟨_, rfl⟩

theorem Script.exists_main {source : String} {s : Script Tag} (h : Script.parse source = .ok s) :
    ∃ b, s.main = some b := by
  obtain ⟨tree, hprogram, rfl⟩ := Script.parse_eq_ok_iff.1 h
  obtain ⟨b, hb⟩ := hprogram.exists_main
  rw [Script.number, hb]
  exact ⟨_, rfl⟩

/-- The definitions are walked to the end, and leave the global scope and that of the main part. -/
theorem Script.run_funcs {s : Script Tag} {b : Body Tag} (hmain : s.main = some b)
    (hfs : ∀ f ∈ s.funcs, f.Written) :
    (FuncDef.checkAll (s.declare .initial).scopes [] s.funcs).fault = none ∧
      FuncDef.Run s.globalScope (s.declare .initial).scopes [] 1 s.funcs
        (FuncDef.checkAll (s.declare .initial).scopes [] s.funcs).scopes
        (FuncDef.checkAll (s.declare .initial).scopes [] s.funcs).events ∧
      (FuncDef.checkAll (s.declare .initial).scopes [] s.funcs).scopes.scope? globalId =
        some s.globalScope ∧
      (FuncDef.checkAll (s.declare .initial).scopes [] s.funcs).scopes.scope?
        (1 + s.funcs.length) = some mainScope := by
  have hlaid := s.declare_laidOut
  obtain ⟨hfault, hrun⟩ := @FuncDef.run_checkAll s.globalScope _ [] 1 s.funcs (hlaid.ready hfs) hfs
  refine ⟨hfault, hrun, ?_, ?_⟩
  · exact (hrun.scope?_eq (.inl Nat.one_pos)).trans hlaid.outer
  · exact (hrun.scope?_eq (.inr (Nat.le_refl _))).trans (hlaid.main (by rw [hmain]; rfl))

/-- A program that was read from a source is walked to its end. -/
theorem Script.exists_tour {source : String} {s : Script Tag} (h : Script.parse source = .ok s) :
    ∃ b mid events, s.Tour b mid events := by
  obtain ⟨b, hmain⟩ := Script.exists_main h
  have hwritten := Script.written_of_parse h
  obtain ⟨hfault, hrun, houter, hown⟩ := Script.run_funcs hmain hwritten.1
  have hbody : (b.check (FuncDef.checkAll (s.declare .initial).scopes [] s.funcs).scopes
      (1 + s.funcs.length) [] []).fault = none :=
    Body.fault_check (by simp) fun d hd ↦ (hwritten.2 b hmain d hd).1
  refine ⟨b, _, _, hmain, hrun, houter, hown, ?_⟩
  change s.check (s.declare .initial).scopes = _
  rw [Script.check, Walk.andThen_of_fault hfault]
  simp only [hmain]
  rw [Body.checkMain, ScopeTable.within_eq (Script.childNamed?_main hmain houter) hbody]

/-- The bodies that the second walk visits, each with its parameters and its scope. -/
inductive Script.Visits (s : Script Tag) : ScopeId → List (Param Tag) → Body Tag → Prop
  | func {i : Nat} {f : FuncDef Tag} (h : LastAt FuncDef.name s.funcs i f) :
      Visits s (1 + i) f.params f.body
  | main {body : Body Tag} (h : s.main = some body) : Visits s (1 + s.funcs.length) [] body

/-- The scope of a body before its variables are declared. -/
def Param.openScope {α : Type} (name : String) (returns : Option Ty) (ps : List (Param α)) :
    Scope :=
  ps.foldl Param.declareIn (Scope.empty name returns (some globalId))

theorem Param.parent_openScope {α : Type} (name : String) (returns : Option Ty)
    (ps : List (Param α)) : (Param.openScope name returns ps).parent = some globalId :=
  (Param.parent_foldl_declareIn _ ps).1

theorem Script.parent_globalScope (s : Script Tag) : s.globalScope.parent = none := by
  have hbound := Scope.parent_bindFunctions (Scope.empty globalName none none) 1 s.funcs
  unfold Script.globalScope
  cases s.main <;> exact hbound

/-- Each body is visited in the scope that the first walk made for it, and nothing else changes
that scope. -/
theorem Script.Tour.visit {s : Script Tag} {b : Body Tag} {mid : ScopeTable}
    {events : List Event} (h : s.Tour b mid events) {id : ScopeId} {params : List (Param Tag)}
    {body : Body Tag} (hvisits : s.Visits id params body) :
    ∃ u name returns locals closing,
      u.Inside id s.globalScope (Param.openScope name returns params) ∧
      u.scope? id = (Node.script s).firstWalk.scopes.scope? id ∧
      Pass.inferring.around name id (body.check u id locals closing).events <:+:
        (Node.script s).secondWalk.events ∧
      (Node.script s).secondWalk.scopes.scope? id =
        (body.check u id locals closing).scopes.scope? id := by
  have hinside {u : ScopeTable} {name : String} {returns : Option Ty} (hne : id ≠ globalId)
      (houter : u.scope? globalId = some s.globalScope)
      (hown : u.scope? id = some (Param.openScope name returns params)) :
      u.Inside id s.globalScope (Param.openScope name returns params) :=
    ⟨hne, hown, Param.parent_openScope _ _ _, houter, s.parent_globalScope⟩
  rw [h.check]
  cases hvisits with
  | @func i f hf =>
    have hlt : i < s.funcs.length := (List.getElem?_eq_some_iff.1 hf.get).1
    have hne : 1 + i ≠ 1 + s.funcs.length := by omega
    obtain ⟨u, houter, hown, hevents, hscope⟩ := h.run.visit hf
    exact ⟨u, f.name, _, _, _, hinside (one_add_ne_globalId i) houter hown,
      hown.trans (s.declare_laidOut.own i f hf.get).symm,
      hevents.trans (List.prefix_append _ _).isInfix, (Body.scope?_check_ne hne).trans hscope⟩
  | main hmain =>
    obtain rfl : b = body := Option.some.inj (h.main.symm.trans hmain)
    have hfirst := s.declare_laidOut.main (by rw [h.main]; rfl)
    exact ⟨mid, mainName, some .void, [], [], hinside (one_add_ne_globalId _) h.outer h.own,
      h.own.trans hfirst.symm, (List.suffix_append _ _).isInfix, rfl⟩

end ScriptAnalysis
