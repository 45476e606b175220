import ScriptAnalysis.Proofs.Reads
import ScriptAnalysis.Proofs.ScopeContents

/-!
# Which nodes have types

After an analysis every expression of the bodies that were walked has a type, however many mistakes
were found around it. Beside them only declarations have one: those that take a free name and give
it a value of another type than they declare. Nothing in a definition that a later one replaces has
a type.
-/

namespace ScriptAnalysis

/-- Whether events give types to expressions among some nodes and to nothing else. -/
def TypesExprs (nodes : List (Node Tag)) (events : List Event) : Prop :=
  ∀ tag type, .typed tag type ∈ events → ∃ e, .expr e ∈ nodes ∧ e.note = tag

namespace TypesExprs

variable {nodes nodes' : List (Node Tag)} {events events' : List Event}

theorem mono (h : TypesExprs nodes events) (hsub : ∀ node ∈ nodes, node ∈ nodes') :
    TypesExprs nodes' events := by
  intro tag type hmem
  obtain ⟨e, he, hnote⟩ := h tag type hmem
  exact ⟨e, hsub _ he, hnote⟩

theorem follow (h : TypesExprs nodes events) (h' : TypesExprs nodes events') :
    TypesExprs nodes (events ++ events') := by
  intro tag type hmem
  exact (List.mem_append.1 hmem).elim (h tag type) (h' tag type)

theorem append (h : TypesExprs nodes events) (h' : TypesExprs nodes' events') :
    TypesExprs (nodes ++ nodes') (events ++ events') :=
  (h.mono fun _ hnode ↦ List.mem_append_left _ hnode).follow
    (h'.mono fun _ hnode ↦ List.mem_append_right _ hnode)

theorem of_quiet (h : Quiet nodes events) : TypesExprs nodes events := by
  intro tag type hmem
  cases (h _ hmem).2

end TypesExprs

theorem Infers.exists_expr {env : Env} {nodes : List (Node Tag)} {events : List Event}
    (h : Infers env nodes events) : ∀ node ∈ nodes, ∃ e, node = .expr e := by
  induction h with
  | nil => simp
  | append _ _ ih ih' => exact List.forall_mem_append.2 ⟨ih, ih'⟩
  | read _ => exact List.forall_mem_singleton.2 ⟨_, rfl⟩
  | unread _ => exact List.forall_mem_singleton.2 ⟨_, rfl⟩
  | conclude _ _ _ ih => exact List.forall_mem_cons.2 ⟨⟨_, rfl⟩, ih⟩

theorem Infers.typesExprs {env : Env} {nodes : List (Node Tag)} {events : List Event}
    (h : Infers env nodes events) : TypesExprs nodes events := by
  intro tag type hmem
  obtain ⟨node, hnode, hnote⟩ := (h.records.about _ hmem).exists_of_typed
  obtain ⟨e, rfl⟩ := h.exists_expr node hnode
  exact ⟨e, hnode, hnote⟩

theorem Checks.typesExprs {setting : Setting} {nodes : List (Node Tag)} {events : List Event}
    (h : Checks setting nodes events) : TypesExprs nodes events := by
  induction h with
  | infer h => exact h.typesExprs
  | append _ _ ih ih' => exact ih.append ih'
  | @judge s violation _ _ _ _ ih =>
    apply (ih.mono fun _ hnode ↦ List.mem_cons_of_mem _ hnode).follow
    exact .of_quiet (@Quiet.verdict _ (.stmt s) List.mem_cons_self violation)
  | warn flow note _ ih => exact TypesExprs.follow (.of_quiet (.flowWarning flow note)) ih
  | block b _ ih => exact ih.mono fun _ hnode ↦ List.mem_cons_of_mem _ hnode

/-- Whether a declaration takes a name that is free and gives it a value of another type than it
declares. -/
def VarDecl.Mistyped (types : TypeTable) (taken : List String) (d : VarDecl Tag) : Prop :=
  d.name ∉ taken ∧ ∃ e ∈ d.init, ∃ type, types.get? e.note.id = some type ∧
    type ≠ .prim (Prim.declared d.type)

section

variable {types : TypeTable} {t : ScopeTable} {id : ScopeId} {g s : Scope} {d : VarDecl Tag}
  {ds : List (VarDecl Tag)} {taken : List String} {tag : Tag} {type : Ty}

theorem VarDecl.mistyped_iff (hknows : types.Knows (d.check t id).events)
    (htaken : d.name ∈ taken ↔ (t.resolve? id d.name).isSome = true) :
    d.Mistyped types taken ↔ (t.resolve? id d.name).isSome = false ∧
      ∃ e ∈ d.init, (e.infer (t.env id)).type ≠ .prim (Prim.declared d.type) := by
  have hvalue : ∀ e ∈ d.init, types.get? e.note.id = some (e.infer (t.env id)).type := by
    intro e he
    exact hknows _ _ ((VarDecl.infix_check he).mem (e.typed_mem_infer _))
  unfold VarDecl.Mistyped
  rw [htaken, Bool.not_eq_true]
  apply and_congr_right
  intro _
  constructor
  · rintro ⟨e, he, type, htype, hne⟩
    rw [hvalue e he, Option.some.injEq] at htype
    exact ⟨e, he, htype ▸ hne⟩
  · rintro ⟨e, he, hne⟩
    exact ⟨e, he, _, hvalue e he, hne⟩

/-- Checking a declaration gives types to its value, and the type `error` to itself if it is
mistyped. -/
theorem VarDecl.typed_mem_check (hknows : types.Knows (d.check t id).events)
    (htaken : d.name ∈ taken ↔ (t.resolve? id d.name).isSome = true) :
    .typed tag type ∈ (d.check t id).events ↔
      (∃ e ∈ d.init, .typed tag type ∈ (e.infer (t.env id)).events) ∨
        d.Mistyped types taken ∧ tag = d.note ∧ type = .error := by
  rw [VarDecl.mistyped_iff hknows htaken]
  cases hbound : (t.resolve? id d.name).isSome with
  | true =>
    unfold VarDecl.check
    cases hinit : d.init with
    | none => simp [hbound]
    | some e => simp [hbound]
  | false =>
    cases hinit : d.init with
    | none =>
      rw [VarDecl.check_of_init_eq_none hbound hinit]
      simp
    | some e =>
      rw [VarDecl.check_of_init_eq_some hbound hinit]
      by_cases htype : (e.infer (t.env id)).type = .prim (Prim.declared d.type) <;> simp [htype]

/-- What happens while declarations are checked happens at one of them, in the scopes that those
before it left. -/
theorem VarDecl.mem_checkAll {event : Event} :
    event ∈ (VarDecl.checkAll t id ds).events ↔ ∃ k d, ds[k]? = some d ∧
      event ∈ (VarDecl.check (VarDecl.checkAll t id (ds.take k)).scopes id d).events := by
  induction ds generalizing t with
  | nil => simp [VarDecl.checkAll]
  | cons first ds ih =>
    rw [VarDecl.checkAll, List.mem_append, ih]
    constructor
    · rintro (hfirst | ⟨k, d, hd, hevent⟩)
      · exact ⟨0, first, rfl, hfirst⟩
      · exact ⟨k + 1, d, hd, hevent⟩
    · rintro ⟨k, d, hd, hevent⟩
      cases k with
      | zero =>
        cases hd
        exact .inl hevent
      | succ k => exact .inr ⟨k, d, hd, hevent⟩

/-- Behind some declarations their names are taken as well. -/
theorem VarDecl.mem_taken_iff (h : t.Inside id g s)
    (htaken : ∀ name, name ∈ taken ↔ (t.resolve? id name).isSome = true) (name : String) :
    name ∈ taken ++ ds.map VarDecl.name ↔
      ((VarDecl.checkAll t id ds).scopes.resolve? id name).isSome = true := by
  induction ds generalizing t s taken with
  | nil => simpa [VarDecl.checkAll] using htaken name
  | cons first ds ih =>
    have hnext : ∀ name, name ∈ taken ++ [first.name] ↔
        ((first.check t id).scopes.resolve? id name).isSome = true := by
      intro name
      rw [VarDecl.isSome_resolve?_check h, List.mem_append, List.mem_singleton, htaken,
        Bool.or_eq_true, decide_eq_true_iff, or_comm, eq_comm]
    have hothers := ih (h.check first) hnext
    rw [List.append_assoc, List.singleton_append] at hothers
    exact hothers

/-- The types that declarations give are those of their values, and one for each that is
mistyped. -/
theorem VarDecl.typed_mem_checkAll (h : t.Inside id g s)
    (hknows : types.Knows (VarDecl.checkAll t id ds).events)
    (htaken : ∀ name, name ∈ taken ↔ (t.resolve? id name).isSome = true) :
    .typed tag type ∈ (VarDecl.checkAll t id ds).events ↔
      ∃ k, ∃ d : VarDecl Tag, ds[k]? = some d ∧
        ((∃ e ∈ d.init, .typed tag type ∈
            (e.infer ((VarDecl.checkAll t id (ds.take k)).scopes.env id)).events) ∨
          d.Mistyped types (taken ++ (ds.take k).map VarDecl.name) ∧ tag = d.note ∧
            type = .error) := by
  rw [VarDecl.mem_checkAll]
  apply exists_congr
  intro k
  apply exists_congr
  intro d
  apply and_congr_right
  intro hd
  apply VarDecl.typed_mem_check
  · intro node type hmem
    exact hknows node type (VarDecl.mem_checkAll.2 ⟨k, d, hd, hmem⟩)
  · exact VarDecl.mem_taken_iff h htaken d.name

end

section

variable {types : TypeTable} {s : Script Tag} {t : ScopeTable} {id : ScopeId} {body : Body Tag}
  {locals : List Local} {closing : List Event} {name : String} {returns : Option Ty}
  {ps : List (Param Tag)} {tag : Tag} {type : Ty}

/-- Whether a declaration of a body is mistyped among the functions, the parameters and the
declarations before it. -/
def Body.Mistypes (types : TypeTable) (functions : List String) (ps : List (Param Tag))
    (body : Body Tag) (d : VarDecl Tag) : Prop :=
  ∃ k, body.vars.decls[k]? = some d ∧
    d.Mistyped types (functions ++ ps.map Param.name ++ (body.vars.decls.take k).map VarDecl.name)

theorem typed_mem_closeLocals {events : List Event} :
    .typed tag type ∈ (closeLocals t id events locals).events ↔ .typed tag type ∈ events := by
  refine ⟨fun hmem ↦ ?_, fun hmem ↦ infix_closeLocals.mem hmem⟩
  unfold closeLocals at hmem
  simp only at hmem
  split at hmem
  · exact hmem
  · refine (List.mem_append.1 hmem).resolve_right fun hwarning ↦ ?_
    obtain ⟨l, -, hl⟩ := List.mem_flatMap.1 hwarning
    cases (@Quiet.localWarning [] t id l _ hl).2

/-- A body gives types to its expressions and to its mistyped declarations only. -/
theorem Body.typed_mem_check
    (h : t.Inside id s.globalScope (Param.openScope name returns ps))
    (hclosing : Quiet (body.walkParts fun _ ↦ false) closing)
    (hknows : types.Knows (body.check t id locals closing).events)
    (htyped : .typed tag type ∈ (body.check t id locals closing).events) :
    (∃ e, .expr e ∈ body.walkParts (fun _ ↦ false) ∧ e.note = tag) ∨
      ∃ d, body.Mistypes types (s.funcs.map FuncDef.name) ps d ∧ tag = d.note := by
  rw [Body.check, typed_mem_closeLocals, List.mem_append, List.mem_append] at htyped
  rcases htyped with (hdecls | hblock) | hlast
  · rw [VarDecl.typed_mem_checkAll h (Body.knows_checkAll hknows) fun _ ↦ h.isSome_resolve?]
      at hdecls
    obtain ⟨k, d, hd, ⟨e, he, hvalue⟩ | ⟨hwrong, htag, -⟩⟩ := hdecls
    · left
      obtain ⟨inner, hinner, hnote⟩ := (e.infers_infer _).typesExprs tag type hvalue
      refine ⟨inner, List.mem_append_left _ (List.mem_cons_of_mem _ ?_), hnote⟩
      apply List.mem_flatMap.2
      refine ⟨d, List.mem_of_getElem? hd, List.mem_cons_of_mem _ ?_⟩
      exact List.mem_flatMap.2 ⟨e, Option.mem_toList.2 he, hinner⟩
    · exact .inr ⟨d, ⟨k, hd, hwrong⟩, htag⟩
  · left
    obtain ⟨e, he, hnote⟩ := (body.block.checks_check _ _).typesExprs tag type hblock
    exact ⟨e, List.mem_append_right _ he, hnote⟩
  · cases (hclosing _ hlast).2

theorem Body.Mistypes.typed_mem_check {d : VarDecl Tag}
    (hd : body.Mistypes types (s.funcs.map FuncDef.name) ps d)
    (h : t.Inside id s.globalScope (Param.openScope name returns ps))
    (hknows : types.Knows (body.check t id locals closing).events) :
    .typed d.note .error ∈ (body.check t id locals closing).events := by
  obtain ⟨k, hget, hwrong⟩ := hd
  rw [Body.check, typed_mem_closeLocals]
  apply List.mem_append_left
  apply List.mem_append_left
  rw [VarDecl.typed_mem_checkAll h (Body.knows_checkAll hknows) fun _ ↦ h.isSome_resolve?]
  exact ⟨k, d, hget, .inr ⟨hwrong, rfl, rfl⟩⟩

end

/-- The nodes of a program that have types in a table: the expressions of the bodies that are
visited, and the declarations there that are mistyped. -/
inductive Script.Typable (s : Script Tag) (types : TypeTable) : Node Tag → Prop
  | expr {id : ScopeId} {params : List (Param Tag)} {body : Body Tag} {e : Expr Tag}
      (h : s.Visits id params body) (he : .expr e ∈ body.walkParts fun _ ↦ false) :
      Typable s types (.expr e)
  | decl {id : ScopeId} {params : List (Param Tag)} {body : Body Tag} {d : VarDecl Tag}
      (h : s.Visits id params body)
      (hd : body.Mistypes types (s.funcs.map FuncDef.name) params d) : Typable s types (.decl d)

namespace Script

variable {source : String} {s : Script Tag} {types : TypeTable} {node : Node Tag}

theorem Typable.exists_visits (h : s.Typable types node) :
    ∃ id params body, s.Visits id params body ∧ node ∈ body.walkParts fun _ ↦ false := by
  cases h with
  | expr h he => exact ⟨_, _, _, h, he⟩
  | @decl _ _ body d h hd =>
    obtain ⟨k, hget, -⟩ := hd
    refine ⟨_, _, _, h, List.mem_append_left _ (List.mem_cons_of_mem _ ?_)⟩
    exact List.mem_flatMap.2 ⟨d, List.mem_of_getElem? hget, List.mem_cons_self⟩

theorem Typable.mem_all (h : s.Typable types node) : node ∈ (Node.script s).all := by
  obtain ⟨_, _, _, hvisits, hbody⟩ := h.exists_visits
  exact hvisits.mem_all hbody

/-- A body that is visited has no node in common with a definition that another one replaces. -/
theorem Visits.notMem_of_shadowed {id : ScopeId} {params : List (Param Tag)} {body : Body Tag}
    (h : s.Visits id params body) (hnodup : (ids (Node.script s).all).Nodup) {i : Nat}
    {f : FuncDef Tag} (hf : s.funcs[i]? = some f) (hlast : ¬ LastAt FuncDef.name s.funcs i f)
    (hnode : node ∈ (Node.func f).all) : node ∉ body.walkParts fun _ ↦ false := by
  intro hbody
  have hparts : (ids (s.funcs.flatMap (FuncDef.walk fun _ ↦ false)) ++
      ids (s.main.toList.flatMap fun main ↦ Node.visit (fun _ ↦ false) (.main main)
        (main.walkParts fun _ ↦ false))).Nodup := by
    rw [← ids_append]
    exact (List.nodup_cons.1 hnodup).2
  cases h with
  | @func j f' hf' =>
    have hne : i ≠ j := by
      rintro rfl
      obtain rfl : f = f' := Option.some.inj (hf.symm.trans hf'.get)
      exact hlast hf'
    have hapart : s.funcs.Pairwise fun f f' ↦
        List.Disjoint (ids (f.walk fun _ ↦ false)) (ids (f'.walk fun _ ↦ false)) := by
      have hfuncs := (List.nodup_append.1 hparts).1
      rw [ids, List.map_flatMap, List.nodup_flatMap] at hfuncs
      exact hfuncs.2
    have hnode' : node ∈ f'.walk fun _ ↦ false :=
      List.mem_cons_of_mem _ (List.mem_append_right _ (List.mem_cons_of_mem _ hbody))
    obtain ⟨hi, rfl⟩ := List.getElem?_eq_some_iff.1 hf
    obtain ⟨hj, rfl⟩ := List.getElem?_eq_some_iff.1 hf'.get
    rw [List.pairwise_iff_getElem] at hapart
    rcases Nat.lt_or_gt_of_ne hne with hlt | hgt
    · exact hapart i j hi hj hlt (List.mem_map_of_mem hnode) (List.mem_map_of_mem hnode')
    · exact hapart j i hj hi hgt (List.mem_map_of_mem hnode') (List.mem_map_of_mem hnode)
  | main hmain =>
    have hfunc : node ∈ s.funcs.flatMap (FuncDef.walk fun _ ↦ false) :=
      List.mem_flatMap.2 ⟨f, List.mem_of_getElem? hf, hnode⟩
    have hmain' : node ∈ s.main.toList.flatMap fun main ↦
        Node.visit (fun _ ↦ false) (.main main) (main.walkParts fun _ ↦ false) :=
      List.mem_flatMap.2 ⟨body, Option.mem_toList.2 hmain, List.mem_cons_of_mem _ hbody⟩
    exact (List.nodup_append.1 hparts).2.2 _ (List.mem_map_of_mem hfunc) _
      (List.mem_map_of_mem hmain') rfl

section

variable (h : Script.parse source = .ok s) (options : Options)
include h

theorem knows_types {events : List Event}
    (hevents : events <:+: (Node.script s).secondWalk.events) :
    (s.analyze options).types.Knows events := by
  intro node type hmem
  exact ((Node.ReadFrom.script h).types_get?_iff options).2 ⟨node, rfl, hevents.mem hmem⟩

/-- What is given a type is typable. -/
theorem exists_typable {tag : Tag} {type : Ty}
    (htyped : .typed tag type ∈ (Node.script s).secondWalk.events) :
    ∃ node, s.Typable (s.analyze options).types node ∧ node.note = tag := by
  obtain ⟨b, mid, events, htour⟩ := Script.exists_tour h
  obtain ⟨_, _, body, hvisits, u, _, _, _, _, hinside, hclosing, hevents, hmem⟩ :=
    htour.typed_mem htyped
  rcases Body.typed_mem_check hinside hclosing (knows_types h options hevents) hmem with
    ⟨e, he, rfl⟩ | ⟨d, hd, rfl⟩
  · exact ⟨.expr e, .expr hvisits he, rfl⟩
  · exact ⟨.decl d, .decl hvisits hd, rfl⟩

theorem exists_typable_of_get? {id : Nat} {type : Ty}
    (htype : (s.analyze options).types.get? id = some type) :
    ∃ node, s.Typable (s.analyze options).types node ∧ node.note.id = id := by
  obtain ⟨tag, rfl, htyped⟩ := ((Node.ReadFrom.script h).types_get?_iff options).1 htype
  obtain ⟨node, hnode, rfl⟩ := exists_typable h options htyped
  exact ⟨node, hnode, rfl⟩

theorem types_expr {e : Expr Tag} (he : s.Typable (s.analyze options).types (.expr e)) :
    ((s.analyze options).types.get? e.note.id).isSome = true := by
  cases he with
  | expr hvisits he =>
    obtain ⟨env, -, hevents⟩ := (Node.ReadFrom.script h).exists_env (.inBody hvisits he)
    rw [knows_types h options hevents _ _ (e.typed_mem_infer env)]
    rfl

theorem types_decl {d : VarDecl Tag} (hd : s.Typable (s.analyze options).types (.decl d)) :
    (s.analyze options).types.get? d.note.id = some .error := by
  obtain ⟨b, mid, events, htour⟩ := Script.exists_tour h
  cases hd with
  | decl hvisits hd =>
    obtain ⟨u, _, _, _, _, hinside, -, hevents, -⟩ := htour.visit hvisits
    have hbody := knows_types h options ((Pass.infix_around _ _ _ _).trans hevents)
    exact hbody _ _ (hd.typed_mem_check hinside hbody)

end

end Script

/-- The nodes of a program that have a type after its analysis are just the expressions in the
bodies that are visited, which are those of the main part and of each definition that is the last of
its name, and the declarations there that take a name which no function, parameter or earlier
declaration has and give it a value of another type than they declare. These declarations have the
type `error`. So no node of a definition that is replaced has a type, and what lies below an
expression with a type has one too. -/
theorem typed_nodes_exact {source : String} {s : Script Tag} (h : Script.parse source = .ok s)
    (options : Options) :
    (∀ id, ((s.analyze options).types.get? id).isSome = true ↔
      ∃ node ∈ (Node.script s).all, s.Typable (s.analyze options).types node ∧
        node.note.id = id) ∧
    (∀ node ∈ (Node.script s).all, ((s.analyze options).types.get? node.note.id).isSome = true ↔
      s.Typable (s.analyze options).types node) ∧
    (∀ d, s.Typable (s.analyze options).types (.decl d) →
      (s.analyze options).types.get? d.note.id = some .error) ∧
    (∀ i f, s.funcs[i]? = some f → (∃ later ∈ s.funcs.drop (i + 1), later.name = f.name) →
      ∀ node ∈ (Node.func f).all, (s.analyze options).types.get? node.note.id = none) ∧
    ∀ e, .expr e ∈ (Node.script s).all →
      ((s.analyze options).types.get? e.note.id).isSome = true →
      ∀ inner, .expr inner ∈ (Node.expr e).all →
        ((s.analyze options).types.get? inner.note.id).isSome = true := by
  have hnodup := (Node.ReadFrom.script h).nodup_ids
  have hsome {node : Node Tag} (hnode : s.Typable (s.analyze options).types node) :
      ((s.analyze options).types.get? node.note.id).isSome = true := by
    cases node with
    | expr e => exact Script.types_expr h options hnode
    | decl d =>
      change ((s.analyze options).types.get? d.note.id).isSome = true
      rw [Script.types_decl h options hnode]
      rfl
    | _ => cases hnode
  have htypable {node : Node Tag} (hnode : node ∈ (Node.script s).all)
      (htype : ((s.analyze options).types.get? node.note.id).isSome = true) :
      s.Typable (s.analyze options).types node := by
    obtain ⟨type, htype⟩ := Option.isSome_iff_exists.1 htype
    obtain ⟨node', hnode', hid⟩ := Script.exists_typable_of_get? h options htype
    rwa [eq_of_id_eq hnodup hnode hnode'.mem_all hid.symm]
  refine ⟨fun id ↦ ⟨fun htype ↦ ?_, ?_⟩, fun node hnode ↦ ⟨htypable hnode, hsome⟩,
    fun d ↦ Script.types_decl h options, ?_, ?_⟩
  · obtain ⟨type, htype⟩ := Option.isSome_iff_exists.1 htype
    obtain ⟨node, hnode, hid⟩ := Script.exists_typable_of_get? h options htype
    exact ⟨node, hnode.mem_all, hnode, hid⟩
  · rintro ⟨node, -, hnode, rfl⟩
    exact hsome hnode
  · rintro i f hf ⟨later, hlater, hname⟩ node hnode
    rw [← Option.not_isSome_iff_eq_none]
    intro htype
    have hwhole : node ∈ (Node.script s).all := by
      apply List.mem_cons_of_mem
      apply List.mem_append_left
      exact List.mem_flatMap.2 ⟨f, List.mem_of_getElem? hf, hnode⟩
    obtain ⟨_, _, _, hvisits, hbody⟩ := (htypable hwhole htype).exists_visits
    exact hvisits.notMem_of_shadowed hnodup hf (fun hlast ↦ hlast.last later hlater hname) hnode
      hbody
  · intro e he htype inner hinner
    cases @htypable (.expr e) he htype with
    | @expr _ _ body _ hvisits he =>
      have hbody : .expr e ∈ (Node.body body).all := List.mem_cons_of_mem _ he
      have hbelow := (List.mem_cons.1 (Node.mem_all_trans hbody hinner)).resolve_left (by simp)
      exact Script.types_expr h options (.expr hvisits hbelow)

/-- Nothing in the replaced definition has a type, and the variable has the type `error`, since its
value is of another type than declared. -/
theorem typed_nodes_exact_replaced :
    ∃ s f g b d, Script.parse "func f(){print 1}func f(){}var x:Int=true" = .ok s ∧
      s.funcs = [f, g] ∧ s.main = some b ∧ b.vars.decls = [d] ∧
      (∀ node ∈ (Node.func f).all, (s.analyze {}).types.get? node.note.id = none) ∧
      (s.analyze {}).types.get? d.note.id = some .error := by
  obtain ⟨s, hs, f, g, b, d, e, hfuncs, hmain, hdecls, hinit, hname, hfree, htype, hevents⟩ :
      ∃ s, Script.parse "func f(){print 1}func f(){}var x:Int=true" = .ok s ∧
        ∃ f g b d e, s.funcs = [f, g] ∧ s.main = some b ∧ b.vars.decls = [d] ∧ d.init = some e ∧
          f.name = g.name ∧ d.name ≠ f.name ∧ d.type = "Int" ∧
          decide (.typed e.note .bool ∈ (Node.script s).secondWalk.events) = true := by
    refine ⟨?_, ?parse, ?_⟩
    case parse =>
      cbv
      rfl
    refine ⟨_, _, _, _, _, rfl, rfl, rfl, rfl, rfl, by decide, rfl, ?_⟩
    unfold Node.secondWalk
    cbv
  have hvalue : (s.analyze {}).types.get? e.note.id = some .bool :=
    ((Node.ReadFrom.script hs).types_get?_iff {}).2 ⟨e.note, rfl, of_decide_eq_true hevents⟩
  have hwrong : b.Mistypes (s.analyze {}).types (s.funcs.map FuncDef.name) [] d := by
    refine ⟨0, by rw [hdecls]; rfl, ?_, e, hinit, .bool, hvalue, ?_⟩
    · simp [hfuncs, ← hname, hfree]
    · rw [htype]
      decide
  obtain ⟨-, -, herror, hreplaced, -⟩ := typed_nodes_exact hs {}
  exact ⟨s, f, g, b, d, hs, hfuncs, hmain, hdecls,
    hreplaced 0 f (by rw [hfuncs]; rfl) ⟨g, by simp [hfuncs], hname.symm⟩,
    herror d (.decl (.main hmain) hwrong)⟩

end ScriptAnalysis
