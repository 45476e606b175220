import ScriptAnalysis.Proofs.OptionEffects
import ScriptAnalysis.Proofs.SymbolWatch
import ScriptAnalysis.Proofs.Twins
import ScriptAnalysis.Proofs.Warnings

/-!
# Unused variables and parameters

The warnings of unused names can be told from the program and from the scopes that are left: a
parameter or variable is warned of just if its name is still bound to its own symbol and not to
`error`, no variable of that name stands behind it in its body, and the name does not begin with an
underscore. Each is warned of at most once, in the order of the program.
-/

namespace ScriptAnalysis

open ScopeTable (globalId mainName)

/-- A parameter or variable of a body, with its number among its kind and the nodes that stand
behind it. -/
structure Binder where
  name : String
  span : Span
  isParam : Bool
  ordinal : Nat
  after : List (Node Tag)

namespace Binder

/-- Whether the symbol that a scope binds the name to is that of the binder, and not of type
`error`. -/
def isBound (scope : Scope) (b : Binder) : Bool :=
  (scope.get? b.name).any fun symbol ↦
    symbol.isParam = b.isParam ∧ symbol.ordinal = b.ordinal ∧ symbol.type ≠ some .error

/-- Whether a binder of a body that left a scope is to be warned of. -/
def isUnused (scope : Scope) (b : Binder) : Bool :=
  b.name.toList.head? ≠ some '_' && b.isBound scope && !b.after.any (Node.isVariable b.name)

def warning (b : Binder) : Warning := .unused b.span b.name

end Binder

/-- The parameters as binders, numbered from `ordinal` on, before some other nodes. -/
def Param.binders (after : List (Node Tag)) (ordinal : Nat) : List (Param Tag) → List Binder
  | [] => []
  | p :: ps =>
    ⟨p.name, p.note.span, true, ordinal, ps.map .param ++ after⟩ ::
      Param.binders after (ordinal + 1) ps

/-- The variables as binders, numbered from `ordinal` on, before some other nodes. -/
def VarDecl.binders (after : List (Node Tag)) (ordinal : Nat) : List (VarDecl Tag) → List Binder
  | [] => []
  | d :: ds =>
    ⟨d.name, d.note.span, false, ordinal, ds.flatMap (fun d ↦ (Node.decl d).all) ++ after⟩ ::
      VarDecl.binders after (ordinal + 1) ds

def Body.binders (params : List (Param Tag)) (b : Body Tag) : List Binder :=
  Param.binders (Node.body b).all 0 params ++
    VarDecl.binders (Node.block b.block).all 0 b.vars.decls

/-- The binders of the bodies that are walked, each with the name of the scope of its body. -/
def Script.binders (s : Script Tag) : List (String × Binder) :=
  (FuncDef.lasts s.funcs).flatMap (fun f ↦ (f.body.binders f.params).map (f.name, ·)) ++
    s.main.toList.flatMap fun main ↦ (main.binders []).map (mainName, ·)

/-- Whether a local can be warned of in the scope that its body left. -/
def Local.isWatched (scope : Scope) (l : Local) : Bool :=
  l.name.toList.head? ≠ some '_' ∧ (scope.get? l.name).bind (·.type) ≠ some .error

def Local.isUnused (scope : Scope) (events : List Event) (l : Local) : Bool :=
  l.isWatched scope && !events.any (Event.reads l.name)

theorem Local.unused_warning {t : ScopeTable} {id : ScopeId} {scope : Scope}
    (hscope : t.scope? id = some scope) (l : Local) :
    (l.warning t id).filterMap Event.unused? =
      if l.isWatched scope then [.unused l.span l.name] else [] := by
  unfold Local.warning Local.isWatched
  rw [ScopeTable.local?, hscope, Option.bind_some]
  by_cases hhead : l.name.toList.head? = some '_'
  · simp [hhead]
  · by_cases hbound : (scope.get? l.name).bind (·.type) = some .error
    · simp [hbound]
    · simp [hhead, hbound, Event.unused?]

theorem unused_closeLocals {t : ScopeTable} {id : ScopeId} {scope : Scope} {events : List Event}
    {locals : List Local} (hscope : t.scope? id = some scope) (hnames : ∀ l ∈ locals, l.name ≠ "")
    (hevents : ∀ event ∈ events, event.unused? = none) :
    (closeLocals t id events locals).events.filterMap Event.unused? =
      (locals.filter (Local.isUnused scope events)).map fun l ↦ .unused l.span l.name := by
  rw [closeLocals_of_names hnames, List.filterMap_append, List.filterMap_eq_nil_iff.2 hevents,
    List.nil_append]
  clear hnames
  induction locals with
  | nil => rfl
  | cons l ls ih =>
    rw [List.filter_cons, List.filter_cons, Local.isUnused]
    cases hreads : events.any (Event.reads l.name) with
    | true => simp [ih]
    | false =>
      have hkept : (!false) = true := rfl
      rw [if_pos hkept, List.flatMap_cons, List.filterMap_append, ih, l.unused_warning hscope]
      cases l.isWatched scope <;> rfl

/-- Whether a parameter of a body with some variables is the only binder of its name. -/
structure Param.IsSole (ps : List (Param Tag)) (ds : List (VarDecl Tag)) (i : Nat) (p : Param Tag) :
    Prop where
  last : LastAt Param.name ps i p
  count : (ps.map Param.name).count p.name = 1
  free : p.name ∉ ds.map VarDecl.name
  type : Prim.declared p.type ≠ .error

namespace Scope.HoldsBody

variable {scope : Scope} {types : TypeTable} {functions : List String}

/-- The name of a parameter is bound to `error`, or the parameter is the only binder of its name. -/
theorem param {before ps : List (Param Tag)} {p : Param Tag} {ds : List (VarDecl Tag)}
    (h : scope.HoldsBody types functions (before ++ p :: ps) ds) :
    (scope.get? p.name).bind (·.type) = some .error ∨
      Param.IsSole (before ++ p :: ps) ds before.length p ∧ scope.get? p.name =
        some ⟨p.name, some (.prim (Prim.declared p.type)), true, before.length⟩ := by
  have hmem : p.name ∈ (before ++ p :: ps).map Param.name := by simp
  by_cases hdecl : p.name ∈ ds.map VarDecl.name
  · left
    obtain ⟨k, d, hd, hname⟩ := exists_lastAt hdecl
    rw [← hname, h.vars k d hd, Option.bind_some, VarDecl.typeAmong, if_neg]
    rintro ⟨hfree, -⟩
    rw [hname] at hfree
    exact hfree (List.mem_append_left _ (List.mem_append_right _ hmem))
  by_cases hcount : ((before ++ p :: ps).map Param.name).count p.name = 1
  · have hlater : p.name ∉ ps.map Param.name := by
      apply List.count_eq_zero.1
      have hsplit := hcount
      rw [List.map_append, List.count_append, List.map_cons, List.count_cons_self] at hsplit
      omega
    have hlast : LastAt Param.name (before ++ p :: ps) before.length p :=
      lastAt_append.2 (lastAt_zero.2 ⟨rfl, hlater⟩)
    have hget := h.params _ p hlast hdecl
    rw [if_pos hcount] at hget
    by_cases htype : Prim.declared p.type = .error
    · left
      rw [hget, htype]
      rfl
    · exact .inr ⟨⟨hlast, hcount, hdecl, htype⟩, hget⟩
  · left
    obtain ⟨i, q, hq, hname⟩ := exists_lastAt hmem
    rw [← hname] at hdecl hcount ⊢
    rw [h.params i q hq hdecl, if_neg hcount]
    rfl

/-- The name of a variable is bound to `error`, or no later variable has it and it is bound to the
variable. -/
theorem decl {ps : List (Param Tag)} {before ds : List (VarDecl Tag)} {d : VarDecl Tag}
    (h : scope.HoldsBody types functions ps (before ++ d :: ds)) :
    (scope.get? d.name).bind (·.type) = some .error ∨
      d.name ∉ ds.map VarDecl.name ∧
        ∃ type, type ≠ Prim.error ∧
          type = d.typeAmong types (functions ++ ps.map Param.name ++ before.map VarDecl.name) ∧
          scope.get? d.name = some ⟨d.name, some (.prim type), false, before.length⟩ := by
  by_cases hlater : d.name ∈ ds.map VarDecl.name
  · left
    obtain ⟨k, d', hd', hname⟩ := exists_lastAt hlater
    have htake : (before ++ d :: ds).take (before.length + (k + 1)) = before ++ d :: ds.take k := by
      rw [List.take_length_add_append, List.take_succ_cons]
    rw [← hname, h.vars _ d' (lastAt_append.2 (lastAt_succ.2 hd')), Option.bind_some,
      VarDecl.typeAmong, if_neg]
    rintro ⟨hfree, -⟩
    rw [hname, htake] at hfree
    exact hfree (by simp)
  · have hget := h.vars _ d (lastAt_append.2 (lastAt_zero.2 ⟨rfl, hlater⟩))
    have htake : (before ++ d :: ds).take (before.length + 0) = before := by simp
    rw [htake] at hget
    by_cases htype : d.typeAmong types
        (functions ++ ps.map Param.name ++ before.map VarDecl.name) = .error
    · left
      rw [hget, htype]
      rfl
    · exact .inr ⟨hlater, _, htype, rfl, hget⟩

end Scope.HoldsBody

section

variable {scope : Scope} {events : List Event}

theorem Local.isUnused_of_error {l : Local}
    (h : (scope.get? l.name).bind (·.type) = some .error) : l.isUnused scope events = false := by
  simp [Local.isUnused, Local.isWatched, h]

namespace Binder

variable {b : Binder}

theorem isUnused_of_error (h : (scope.get? b.name).bind (·.type) = some .error) :
    b.isUnused scope = false := by
  obtain ⟨symbol, hsymbol, htype⟩ := Option.bind_eq_some_iff.1 h
  simp [isUnused, isBound, hsymbol, htype]

/-- A binder whose name is bound to it is warned of like its local, where reading is having a
variable behind it. -/
theorem isUnused_eq {type : Prim} (hsymbol : scope.get? b.name =
      some ⟨b.name, some (.prim type), b.isParam, b.ordinal⟩) (htype : type ≠ .error)
    (hreads : events.any (Event.reads b.name) = b.after.any (Node.isVariable b.name)) :
    b.isUnused scope = Local.isUnused scope events ⟨b.name, b.span⟩ := by
  simp [isUnused, isBound, Local.isUnused, Local.isWatched, hsymbol, htype, hreads]

end Binder

end

/-! ## Bodies and programs -/

section

variable {scope : Scope} {types : TypeTable} {functions : List String} {t : ScopeTable}
  {id : ScopeId} {g own : Scope} {events rest : List Event}

/-- The watch over the parameters of a body finds the unused ones. -/
theorem Param.unused_locals {before ps : List (Param Tag)} {ds : List (VarDecl Tag)}
    {seen : List String} {after : List (Node Tag)}
    (hholds : scope.HoldsBody types functions (before ++ ps) ds)
    (hseen : ∀ name, name ∈ seen ↔ name ∈ before.map Param.name)
    (hlocal : ∀ p ∈ ps, (t.local? id p.name).isSome = true)
    (hreads : ∀ i p, Param.IsSole (before ++ ps) ds i p →
      events.any (Event.reads p.name) = after.any (Node.isVariable p.name)) :
    ((Param.locals t id seen ps).filter (Local.isUnused scope events)).map
        (fun l ↦ .unused l.span l.name) =
      ((Param.binders after before.length ps).filter (·.isUnused scope)).map Binder.warning := by
  induction ps generalizing before seen with
  | nil => rfl
  | cons p ps ih =>
    have happend : before ++ p :: ps = before ++ [p] ++ ps := by simp
    have hothers := @ih (before ++ [p]) (p.name :: seen) (happend ▸ hholds)
      (by simp [hseen, or_comm]) (fun q hq ↦ hlocal q (List.mem_cons_of_mem p hq))
      (happend ▸ hreads)
    rw [List.length_append, List.length_singleton] at hothers
    rw [Param.locals, Param.binders, List.filter_cons]
    rcases hholds.param with herror | ⟨hsole, hsymbol⟩
    · rw [Binder.isUnused_of_error herror]
      split
      · rw [List.filter_cons, Local.isUnused_of_error herror]
        exact hothers
      · exact hothers
    · have hafter : events.any (Event.reads p.name) =
          (ps.map Node.param ++ after).any (Node.isVariable p.name) := by
        rw [List.any_append, hreads _ p hsole]
        simp [Node.isVariable]
      have hbefore : p.name ∉ before.map Param.name := by
        have hfirst := hsole.last.count_eq_one_iff.1 hsole.count
        rwa [List.take_left] at hfirst
      have hshown := @Binder.isUnused_eq scope events
        ⟨p.name, p.note.span, true, before.length, ps.map .param ++ after⟩ _ hsymbol hsole.type
        hafter
      rw [if_pos ⟨mt (hseen p.name).1 hbefore, hlocal p List.mem_cons_self⟩, List.filter_cons,
        hshown]
      cases Local.isUnused scope events ⟨p.name, p.note.span⟩ with
      | true => exact congrArg (_ :: ·) hothers
      | false => exact hothers

/-- The watch over the variables of a body finds the unused ones. What is read before a variable is
declared is bound by then, so it is not the variable. -/
theorem VarDecl.unused_locals {ps : List (Param Tag)} {before ds : List (VarDecl Tag)}
    {earlier : List Event} {after : List (Node Tag)} (h : t.Inside id g own)
    (hholds : scope.HoldsBody types functions ps (before ++ ds))
    (hknows : types.Knows (VarDecl.checkAll t id ds).events)
    (htaken : ∀ name, name ∈ functions ++ ps.map Param.name ++ before.map VarDecl.name ↔
      (t.resolve? id name).isSome = true)
    (hearlier : ∀ name, (t.resolve? id name).isSome = false →
      earlier.any (Event.reads name) = false)
    (hrest : ∀ name, Uses name
      (((VarDecl.checkAll t id ds).scopes.env id).usable? name).isSome after rest) :
    ((VarDecl.checkAll t id ds).locals.filter (Local.isUnused scope
        (earlier ++ (VarDecl.checkAll t id ds).events ++ rest))).map
        (fun l ↦ .unused l.span l.name) =
      ((VarDecl.binders after before.length ds).filter (·.isUnused scope)).map Binder.warning := by
  induction ds generalizing t own before earlier with
  | nil => rfl
  | cons d ds ih =>
    have happend : before ++ d :: ds = before ++ [d] ++ ds := by simp
    have hothers := @ih _ _ (before ++ [d]) (earlier ++ (d.check t id).events) (h.check d)
      (happend ▸ hholds) (fun node type hmem ↦ hknows node type (List.mem_append_right _ hmem))
      ?_ ?_ hrest
    · rw [List.length_append, List.length_singleton, List.append_assoc earlier] at hothers
      rw [VarDecl.checkAll, VarDecl.binders, List.filter_append, List.map_append, d.locals_check]
      rcases hholds.decl with herror | ⟨hlater, type, htype, hbound, hsymbol⟩
      · rw [List.filter_cons, Binder.isUnused_of_error herror]
        split
        · exact hothers
        · rw [List.filter_cons, Local.isUnused_of_error herror]
          exact hothers
      · have hfits : d.bound t id = type :=
          (VarDecl.bound_eq_typeAmong (fun node type hmem ↦
            hknows node type (List.mem_append_left _ hmem)) (htaken d.name)).trans hbound.symm
        have hproper : d.bound t id ≠ .error := fun herror ↦ htype (hfits.symm.trans herror)
        have hevents : (VarDecl.checkAll t id (d :: ds)).events =
          (d.check t id).events ++ (VarDecl.checkAll (d.check t id).scopes id ds).events := rfl
        have hreads := VarDecl.any_reads_behind h hproper hlater (hearlier d.name) (hrest d.name)
        rw [hevents] at hreads
        have hshown := @Binder.isUnused_eq scope _
          ⟨d.name, d.note.span, false, before.length,
            ds.flatMap (fun d ↦ (Node.decl d).all) ++ after⟩ _ hsymbol htype hreads
        rw [if_neg (mt (fun hwrong ↦ if_pos hwrong) hproper), List.filter_cons, List.filter_cons,
          hshown]
        cases Local.isUnused scope _ ⟨d.name, d.note.span⟩ with
        | true => exact congrArg (_ :: ·) hothers
        | false => exact hothers
    · intro name
      rw [VarDecl.isSome_resolve?_check h, List.map_append, ← List.append_assoc, List.mem_append,
        htaken, Bool.or_eq_true, or_comm, List.map_singleton, List.mem_singleton,
        decide_eq_true_iff, eq_comm]
    · intro name hname
      rw [VarDecl.isSome_resolve?_check h, Bool.or_eq_false_iff] at hname
      rw [List.any_append, hearlier name hname.2, d.any_reads_check_of_unbound hname.2]
      rfl

theorem VarDecl.unused?_checkAll (t : ScopeTable) (id : ScopeId) (ds : List (VarDecl Tag)) :
    ∀ event ∈ (VarDecl.checkAll t id ds).events, event.unused? = none := by
  induction ds generalizing t with
  | nil => simp [VarDecl.checkAll]
  | cons d ds ih => exact List.forall_mem_append.2 ⟨(d.uses_check d.name).unused?_eq, ih _⟩

/-- A parameter that is the only binder of its name is read wherever the name stands. -/
theorem Param.IsSole.uses_body {ps : List (Param Tag)} {body : Body Tag} {i : Nat} {p : Param Tag}
    {name : String} {returns : Option Ty} {ending : List Event}
    (hsole : Param.IsSole ps body.vars.decls i p)
    (h : t.Inside id g (Param.openScope name returns ps))
    (hending : Uses p.name
      (((VarDecl.checkAll t id body.vars.decls).scopes.env id).usable? p.name).isSome
      (Node.block body.block).all ending) :
    Uses p.name true (Node.body body).all
      ((VarDecl.checkAll t id body.vars.decls).events ++ ending) := by
  have husable : ((t.env id).usable? p.name).isSome = true := by
    rw [Env.usable?, ScopeTable.env, h.resolve?, Param.get?_openScope_of_lastAt hsole.last,
      if_pos hsole.count]
    simp [hsole.type]
  have hdecls := VarDecl.uses_checkAll h hsole.free
  rw [Env.usable?, VarDecl.env_checkAll_of_notMem h hsole.free] at hending
  rw [husable] at hdecls
  exact ((hdecls.below rfl).append (husable ▸ hending)).below rfl

/-- The warnings of unused names in a body are those of its unused binders. -/
theorem Body.unused_check {s : Script Tag} {name : String} {returns : Option Ty}
    {ps : List (Param Tag)} {body : Body Tag} {closing : List Event}
    (h : t.Inside id s.globalScope (Param.openScope name returns ps))
    (hknows : types.Knows (body.check t id (Param.locals t id [] ps) closing).events)
    (hps : ∀ p ∈ ps, p.Written) (hbody : body.Written) (hclosing : Idle closing) :
    ∃ scope, (body.check t id (Param.locals t id [] ps) closing).scopes.scope? id = some scope ∧
      (body.check t id (Param.locals t id [] ps) closing).events.filterMap Event.unused? =
        ((body.binders ps).filter (·.isUnused scope)).map Binder.warning := by
  obtain ⟨scope, hscope, hholds⟩ := Body.exists_holdsBody h hknows
  refine ⟨scope, hscope, ?_⟩
  let declared := VarDecl.checkAll t id body.vars.decls
  let ending := body.block.check (declared.scopes.setting id) .live ++ closing
  have hending (name : String) : Uses name ((declared.scopes.env id).usable? name).isSome
      (Node.block body.block).all ending := by
    have hblock := body.block.uses_check name (declared.scopes.setting id) .live
    rw [ScopeTable.env_setting] at hblock
    exact hblock.follow hclosing
  have hnames : ∀ l ∈ Param.locals t id [] ps ++ declared.locals, l.name ≠ "" := by
    rw [List.forall_mem_append]
    exact ⟨Param.name_ne_of_mem_locals fun p hp ↦ (hps p hp).1,
      VarDecl.name_ne_of_mem_locals fun d hd ↦ (hbody d hd).1⟩
  have hevents : ∀ event ∈ declared.events ++ ending, event.unused? = none :=
    List.forall_mem_append.2 ⟨VarDecl.unused?_checkAll t id _, (hending "").unused?_eq⟩
  have hlocal : ∀ p ∈ ps, (t.local? id p.name).isSome = true := by
    intro p hp
    rw [ScopeTable.local?, h.inner, Option.bind_some]
    exact (Param.isSome_get?_openScope name).2 (List.mem_map_of_mem hp)
  rw [Body.check, scopes_closeLocals] at hscope
  rw [Body.check, List.append_assoc, unused_closeLocals hscope hnames hevents, Body.binders,
    List.filter_append, List.filter_append, List.map_append, List.map_append]
  congr 1
  · exact @Param.unused_locals scope types _ t id _ [] ps body.vars.decls [] _ hholds (by simp)
      hlocal fun i p hsole ↦
        (hsole.uses_body h (hending p.name)).any_reads.trans (Bool.true_and _)
  · exact @VarDecl.unused_locals scope types _ t id _ _ _ ps [] body.vars.decls [] _ h hholds
      (Body.knows_checkAll hknows) (by simpa using fun name ↦ h.isSome_resolve?) (by simp) hending

end

theorem FuncDef.idle_fallThrough (returns : Option Ty) (f : FuncDef Tag) :
    Idle (f.fallThrough returns) := by
  unfold FuncDef.fallThrough
  split
  · exact idle_nil
  · exact List.forall_mem_singleton.2 ⟨fun _ ↦ rfl, rfl⟩

theorem filter_code_warnings (events : List Event) :
    (events.filterMap Event.warning?).filter (·.code = "W0001") =
      events.filterMap Event.unused? := by
  rw [List.filter_filterMap]
  congr 1
  funext event
  cases event with
  | warned span caution => cases caution <;> rfl
  | _ => rfl

/-- The unused binders of a body can be told from the scope that is registered under its name. -/
theorem Body.unused_check_under {types : TypeTable} {s : Script Tag} {t t' : ScopeTable}
    {id : ScopeId} {name : String} {returns : Option Ty} {ps : List (Param Tag)} {body : Body Tag}
    {closing : List Event} (h : t.Inside id s.globalScope (Param.openScope name returns ps))
    (hknows : types.Knows (body.check t id (Param.locals t id [] ps) closing).events)
    (hps : ∀ p ∈ ps, p.Written) (hbody : body.Written) (hclosing : Idle closing)
    (houter : t'.scope? globalId = some s.globalScope)
    (hchild : s.globalScope.children[name]? = some id)
    (hfinal : t'.scope? id =
      (body.check t id (Param.locals t id [] ps) closing).scopes.scope? id) :
    (body.check t id (Param.locals t id [] ps) closing).events.filterMap Event.unused? =
      ((body.binders ps).filter fun b ↦ (t'.under name).any (b.isUnused ·)).map
        Binder.warning := by
  obtain ⟨scope, hscope, hunused⟩ := Body.unused_check h hknows hps hbody hclosing
  have hunder : t'.under name = some scope := by
    rw [ScopeTable.under, ScopeTable.childNamed?_of_scope? houter, hchild]
    exact hfinal.trans hscope
  rw [hunused, hunder]
  rfl

/-- If warnings are asked for, those of unused names are just the warnings of the binders that are
unused in the scopes of their bodies, each at its place and in the order of the program. The same
walk is made by marking the symbols that are read and leaving out those that were replaced, however
the symbols are told apart. -/
theorem unused_warnings_exact {source : String} {s : Script Tag}
    (h : Script.parse source = .ok s) {options : Options} (hwarnings : options.warnings = true) :
    (s.analyze options).warnings.filter (·.code = "W0001") =
      (s.binders.filter fun b ↦
        ((s.analyze options).scopes.under b.1).any (b.2.isUnused ·)).map (·.2.warning) ∧
    (∃ identities : Identities, identities.Fits (Node.script s).firstWalk.scopes) ∧
    ∀ watch : Watch, watch.identities.Fits (Node.script s).firstWalk.scopes →
      ∃ identities, s.watch (Node.script s).firstWalk.scopes watch =
        ((Node.script s).secondWalk, ⟨identities, watch.locals⟩) := by
  refine ⟨?_, ScopeTable.exists_fits _, fun watch hfits ↦ Script.watch_eq h hfits⟩
  obtain ⟨b, mid, events, htour⟩ := Script.exists_tour h
  have hwritten := Script.written_of_parse h
  have hknows {part : List Event} (hpart : part <:+: (Node.script s).secondWalk.events) :
      (s.analyze options).types.Knows part := by
    intro node type hmem
    exact ((Node.ReadFrom.script h).types_get?_iff options).2 ⟨node, rfl, hpart.mem hmem⟩
  have hscopes : (s.analyze options).scopes = (Node.script s).secondWalk.scopes := rfl
  have houter : (Node.script s).secondWalk.scopes.scope? globalId = some s.globalScope := by
    rw [htour.check]
    exact (Body.scope?_check_ne (Script.one_add_ne_globalId _).symm).trans htour.outer
  have hchildren {name : String} {id : ScopeId} :=
    @Script.children_globalScope s b htour.main hwritten.1 name id
  have hpick (event : Event) (hevent : event.warning? = none) : event.unused? = none := by
    cases event with
    | warned => cases hevent
    | _ => rfl
  have hwalk : (s.analyze options).warnings.filter (·.code = "W0001") =
      (Node.script s).secondWalk.events.filterMap Event.unused? := by
    rw [← filter_code_warnings, ← Options.warnings_filter_admits hwarnings]
    rfl
  have hnamed (name : String) (bs : List Binder) :
      ((bs.map (name, ·)).filter fun b ↦
        ((Node.script s).secondWalk.scopes.under b.1).any (b.2.isUnused ·)).map (·.2.warning) =
      (bs.filter fun b ↦ ((Node.script s).secondWalk.scopes.under name).any (b.isUnused ·)).map
        Binder.warning := by
    rw [List.filter_map, List.map_map]
    rfl
  rw [hwalk, hscopes, Script.binders, htour.main, List.filter_append, List.map_append,
    List.filter_flatMap, List.map_flatMap, Option.toList_some, List.flatMap_singleton, hnamed]
  simp only [hnamed]
  apply htour.filterMap_events hpick
  · intro i f u hf hinside hevents hscope
    have hf' := hwritten.1 f (List.mem_of_getElem? hf.get)
    exact Body.unused_check_under hinside (hknows hevents) hf'.params hf'.body
      (f.idle_fallThrough _) houter (hchildren.2 (.inl ⟨i, f, hf, rfl, rfl⟩)) hscope
  · intro hinside hevents
    have hopen : Script.mainScope = Param.openScope mainName (some .void) ([] : List (Param Tag)) :=
      rfl
    have hleft : (Node.script s).secondWalk.scopes = _ := congrArg Walk.scopes htour.check
    rw [hopen] at hinside
    exact Body.unused_check_under hinside (hknows hevents) (by simp) (hwritten.2 b htour.main)
      idle_nil houter (hchildren.2 (.inr ⟨rfl, rfl⟩)) (congrArg (ScopeTable.scope? · _) hleft)

/-- A parameter that is only assigned to is unused, also if a variable of its name is read in the
main part. A replaced definition is not looked at, nor a name that begins with an underscore. -/
theorem unused_warnings_exact_assigned :
    ∃ s, Script.parse "func f(z:Int){}func f(x:Int,_y:Int){x=1}var x:Int print x" = .ok s ∧
      (s.analyze {}).warnings.filter (·.code = "W0001") =
        [⟨⟨⟨1, 23⟩, ⟨1, 28⟩⟩, "W0001", "unused variable or parameter \"x\""⟩] := by
  obtain ⟨s, hs, hunused⟩ : ∃ s,
      Script.parse "func f(z:Int){}func f(x:Int,_y:Int){x=1}var x:Int print x" = .ok s ∧
        (s.binders.filter fun b ↦
          ((Node.script s).secondWalk.scopes.under b.1).any (b.2.isUnused ·)).map (·.2.warning) =
        [⟨⟨⟨1, 23⟩, ⟨1, 28⟩⟩, "W0001", "unused variable or parameter \"x\""⟩] := by
    refine ⟨?_, ?parse, ?_⟩
    case parse =>
      cbv
      rfl
    unfold Node.secondWalk
    cbv
  refine ⟨s, hs, ?_⟩
  have hscopes : (s.analyze {}).scopes = (Node.script s).secondWalk.scopes := rfl
  rw [(unused_warnings_exact hs rfl).1, hscopes, hunused]

end ScriptAnalysis
