import ScriptAnalysis.Proofs.Walks
import ScriptAnalysis.Proofs.WalkSteps

/-!
# What happens in a walk

Every event of the walk through a part of a program is about a node of that part, and the walk gives
each node a type at most once. So the table of types holds for a node just what the walk gave it.
-/

namespace ScriptAnalysis

open ScopeTable (mainName)

/-- Whether an event can happen in a body that consists of some nodes. -/
inductive Event.About (nodes : List (Node Tag)) : Event → Prop
  | typed {node : Node Tag} (h : node ∈ nodes) (type : Ty) : About nodes (.typed node.note type)
  | read (name : String) : About nodes (.read name)
  | reported {node : Node Tag} (h : node ∈ nodes) (violation : Violation) :
      About nodes (.reported node.note violation)
  | warned (span : Span) (caution : Caution) : About nodes (.warned span caution)

theorem Event.About.mono {nodes nodes' : List (Node Tag)} {event : Event}
    (h : event.About nodes) (hsub : ∀ node ∈ nodes, node ∈ nodes') : event.About nodes' := by
  cases h with
  | typed h type => exact .typed (hsub _ h) type
  | read name => exact .read name
  | reported h violation => exact .reported (hsub _ h) violation
  | warned span caution => exact .warned span caution

/-- The number of the node that an event gives a type. -/
def Event.typedId? : Event → Option Nat
  | .typed node _ => some node.id
  | _ => none

/-- The numbers of the nodes that are given types, in that order. -/
def typedIds (events : List Event) : List Nat := events.filterMap Event.typedId?

@[simp] theorem typedIds_append (events events' : List Event) :
    typedIds (events ++ events') = typedIds events ++ typedIds events' :=
  List.filterMap_append

theorem typedIds_eq_nil {events : List Event} (h : ∀ event ∈ events, event.typedId? = none) :
    typedIds events = [] :=
  List.filterMap_eq_nil_iff.2 h

/-- Whether no node is given a type more often than it occurs. -/
def TypedOnce (nodes : List (Node Tag)) (events : List Event) : Prop :=
  ∀ id, (typedIds events).count id ≤ (ids nodes).count id

namespace TypedOnce

variable {nodes nodes' : List (Node Tag)} {events events' : List Event}

theorem of_typedIds_eq_nil (h : typedIds events = []) : TypedOnce nodes events := by
  intro id
  simp [h]

theorem append (h : TypedOnce nodes events) (h' : TypedOnce nodes' events') :
    TypedOnce (nodes ++ nodes') (events ++ events') := by
  intro id
  rw [typedIds_append, ids_append, List.count_append, List.count_append]
  exact Nat.add_le_add (h id) (h' id)

theorem below (h : TypedOnce nodes events) (node : Node Tag) :
    TypedOnce (node :: nodes) events := by
  intro id
  rw [ids_cons, List.count_cons]
  exact Nat.le_add_right_of_le (h id)

theorem nodup (h : TypedOnce nodes events) (hnodup : (ids nodes).Nodup) :
    (typedIds events).Nodup := by
  rw [List.nodup_iff_count]
  intro id
  exact Nat.le_trans (h id) (List.nodup_iff_count.1 hnodup id)

end TypedOnce

/-- Whether events are about some nodes and give them no types. -/
def Quiet (nodes : List (Node Tag)) (events : List Event) : Prop :=
  ∀ event ∈ events, event.About nodes ∧ event.typedId? = none

namespace Quiet

variable {nodes : List (Node Tag)} {events events' : List Event} {node : Node Tag}

theorem nil : Quiet nodes [] := by simp [Quiet]

theorem append (h : Quiet nodes events) (h' : Quiet nodes events') :
    Quiet nodes (events ++ events') :=
  List.forall_mem_append.2 ⟨h, h'⟩

theorem reported (hnode : node ∈ nodes) (violation : Violation) :
    Quiet nodes [.reported node.note violation] :=
  List.forall_mem_singleton.2 ⟨.reported hnode violation, rfl⟩

theorem verdict (hnode : node ∈ nodes) (violation : Option Violation) :
    Quiet nodes (verdict node.note violation) := by
  cases violation with
  | none => exact nil
  | some violation => exact reported hnode violation

theorem warned (span : Span) (caution : Caution) : Quiet nodes [.warned span caution] :=
  List.forall_mem_singleton.2 ⟨.warned span caution, rfl⟩

theorem flowWarning (flow : Flow) (node : Tag) : Quiet nodes (flow.warning node) := by
  unfold Flow.warning
  split
  · exact warned _ _
  · exact nil

theorem fallThrough (returns : Option Ty) (f : FuncDef Tag) :
    Quiet nodes (f.fallThrough returns) := by
  unfold FuncDef.fallThrough
  split
  · exact nil
  · exact warned _ _

theorem localWarning (t : ScopeTable) (id : ScopeId) (l : Local) :
    Quiet nodes (l.warning t id) := by
  unfold Local.warning
  simp only
  split
  · exact nil
  · exact warned _ _

end Quiet

/-- Whether events are about some nodes and give each of them a type at most once. -/
structure Records (nodes : List (Node Tag)) (events : List Event) : Prop where
  about : ∀ event ∈ events, event.About nodes
  once : TypedOnce nodes events

namespace Records

variable {nodes nodes' : List (Node Tag)} {events events' : List Event} {node : Node Tag}

theorem of_quiet (h : Quiet nodes events) : Records nodes events :=
  ⟨fun event hevent ↦ (h event hevent).1,
    .of_typedIds_eq_nil (typedIds_eq_nil fun event hevent ↦ (h event hevent).2)⟩

theorem append (h : Records nodes events) (h' : Records nodes' events') :
    Records (nodes ++ nodes') (events ++ events') := by
  refine ⟨List.forall_mem_append.2 ⟨?_, ?_⟩, h.once.append h'.once⟩
  · exact fun event hevent ↦ (h.about event hevent).mono fun _ hn ↦ List.mem_append_left _ hn
  · exact fun event hevent ↦ (h'.about event hevent).mono fun _ hn ↦ List.mem_append_right _ hn

theorem below (h : Records nodes events) (node : Node Tag) : Records (node :: nodes) events :=
  ⟨fun event hevent ↦ (h.about event hevent).mono fun _ hn ↦ List.mem_cons_of_mem _ hn,
    h.once.below node⟩

theorem follow (h : Records nodes events) (hquiet : Quiet nodes events') :
    Records nodes (events ++ events') := by
  refine ⟨List.forall_mem_append.2 ⟨h.about, fun event hevent ↦ (hquiet event hevent).1⟩, ?_⟩
  intro id
  rw [typedIds_append, typedIds_eq_nil fun event hevent ↦ (hquiet event hevent).2, List.append_nil]
  exact h.once id

theorem lead (hquiet : Quiet nodes events') (h : Records nodes events) :
    Records nodes (events' ++ events) := by
  refine ⟨List.forall_mem_append.2 ⟨fun event hevent ↦ (hquiet event hevent).1, h.about⟩, ?_⟩
  intro id
  rw [typedIds_append, typedIds_eq_nil fun event hevent ↦ (hquiet event hevent).2, List.nil_append]
  exact h.once id

/-- A node is given its type after the nodes below it. -/
theorem typed (h : Records nodes events) (hquiet : Quiet (node :: nodes) events') (type : Ty) :
    Records (node :: nodes) (events ++ events' ++ [.typed node.note type]) := by
  have hboth : Records (node :: nodes) (events ++ events') := (h.below node).follow hquiet
  refine ⟨List.forall_mem_append.2 ⟨hboth.about, ?_⟩, ?_⟩
  · exact List.forall_mem_singleton.2 (.typed List.mem_cons_self type)
  · intro id
    have hnone : typedIds events' = [] := typedIds_eq_nil fun event hevent ↦ (hquiet event hevent).2
    have hnode : typedIds [.typed node.note type] = [node.note.id] := rfl
    rw [typedIds_append, typedIds_append, hnone, List.append_nil, hnode, List.count_append,
      List.count_singleton, ids_cons, List.count_cons]
    exact Nat.add_le_add_right (h.once id) _

theorem conclude (h : Records nodes events) (node : Node Tag) (r : Except Violation Ty) :
    Records (node :: nodes) (Inference.conclude node.note events r).events := by
  cases r with
  | ok type =>
    have htyped := h.typed (@Quiet.nil (node :: nodes)) type
    rw [List.append_nil] at htyped
    exact htyped
  | error violation =>
    have hreported : Quiet (node :: nodes) [.reported node.note violation] :=
      .reported List.mem_cons_self violation
    have htyped := h.typed hreported .error
    rw [List.append_assoc] at htyped
    exact htyped

end Records

theorem Infers.records {env : Env} {nodes : List (Node Tag)} {events : List Event}
    (h : Infers env nodes events) : Records nodes events := by
  induction h with
  | nil => exact .of_quiet .nil
  | append _ _ ih ih' => exact ih.append ih'
  | @read note name type _ =>
    have hread : Quiet [] [.read name] := List.forall_mem_singleton.2 ⟨.read name, rfl⟩
    exact (Records.of_quiet hread).conclude (.expr (.ident note name)) _
  | @unread note name _ => exact (Records.of_quiet .nil).conclude (.expr (.ident note name)) _
  | @conclude e r _ _ _ _ _ ih => exact ih.conclude (.expr e) r

theorem Expr.records_infer (env : Env) (e : Expr Tag) :
    Records (e.walk fun _ ↦ false) (e.infer env).events :=
  (e.infers_infer env).records

theorem Checks.records {setting : Setting} {nodes : List (Node Tag)} {events : List Event}
    (h : Checks setting nodes events) : Records nodes events := by
  induction h with
  | infer h => exact h.records
  | append _ _ ih ih' => exact ih.append ih'
  | @judge s violation _ _ _ _ ih =>
    exact (ih.below (.stmt s)).follow (@Quiet.verdict _ (.stmt s) List.mem_cons_self violation)
  | warn flow note _ ih => exact .lead (.flowWarning flow note) ih
  | block b _ ih => exact ih.below (.block b)

theorem Introduces.records {env : Env} {d : VarDecl Tag} {nodes : List (Node Tag)}
    {events : List Event} (h : Introduces env d nodes events) : Records nodes events := by
  have hreported {nodes : List (Node Tag)} (violation : Violation) :
      Quiet (.decl d :: nodes) [.reported d.note violation] :=
    @Quiet.reported _ (.decl d) List.mem_cons_self violation
  cases h with
  | bound h => exact h.records.below (.decl d)
  | duplicate h => exact (h.records.below (.decl d)).follow (hreported _)
  | mistyped type h =>
    have htyped := (h.records.typed (@Quiet.nil (.decl d :: _)) .error).follow
      (hreported (.initialType type d.type))
    rw [List.append_nil, List.append_assoc] at htyped
    exact htyped

variable {t : ScopeTable} {id : ScopeId}

theorem VarDecl.records_checkAll (ds : List (VarDecl Tag)) :
    Records (ds.flatMap (VarDecl.walk fun _ ↦ false)) (VarDecl.checkAll t id ds).events := by
  induction ds generalizing t with
  | nil => exact .of_quiet .nil
  | cons d ds ih => exact (d.introduces_check t id).records.append ih

theorem Records.closeLocals {nodes : List (Node Tag)} {events : List Event}
    (h : Records nodes events) (locals : List Local) :
    Records nodes (closeLocals t id events locals).events := by
  unfold ScriptAnalysis.closeLocals
  simp only
  split
  · exact h
  · apply h.follow
    intro event hevent
    obtain ⟨l, -, hl⟩ := List.mem_flatMap.1 hevent
    exact Quiet.localWarning t id l event hl

theorem Body.records_check (body : Body Tag) {params : List Local} {closing : List Event}
    (hclosing : Quiet (body.walkParts fun _ ↦ false) closing) :
    Records (body.walkParts fun _ ↦ false) (body.check t id params closing).events := by
  have hdecls := (@VarDecl.records_checkAll t id body.vars.decls).below (.vars body.vars)
  have hblock := body.block.checks_check
    ((VarDecl.checkAll t id body.vars.decls).scopes.setting id) .live
  exact ((hdecls.append hblock.records).follow hclosing).closeLocals _

theorem FuncDef.records_checkBody (f : FuncDef Tag) :
    Records (f.body.walkParts fun _ ↦ false) (f.checkBody t id).events :=
  f.body.records_check (.fallThrough _ f)

/-! ## Whole walks -/

theorem Param.quiet_duplicates {nodes : List (Node Tag)} {function : String} {seen : List String}
    {ps : List (Param Tag)} (h : ∀ p ∈ ps, .param p ∈ nodes) :
    Quiet nodes (Param.duplicates function seen ps) := by
  induction ps generalizing seen with
  | nil => exact .nil
  | cons p ps ih =>
    rw [List.forall_mem_cons] at h
    exact (@Quiet.verdict _ (.param p) h.1 _).append (ih h.2)

theorem FuncDef.quiet_reports (f : FuncDef Tag) (seen : List String) :
    Quiet (f.walk fun _ ↦ false) (f.reports seen) := by
  apply Quiet.append
  · exact @Quiet.verdict _ (.func f) List.mem_cons_self _
  · apply Param.quiet_duplicates
    intro p hp
    apply List.mem_cons_of_mem
    apply List.mem_append_left
    exact List.mem_flatMap.2 ⟨p, hp, List.mem_cons_self⟩

theorem FuncDef.typedIds_reports (f : FuncDef Tag) (seen : List String) :
    typedIds (f.reports seen) = [] :=
  typedIds_eq_nil fun event hevent ↦ (f.quiet_reports seen event hevent).2

theorem typedIds_around (pass : Pass) (name : String) (scope : ScopeId) (events : List Event) :
    typedIds (pass.around name scope events) = typedIds events :=
  (typedIds_append events _).trans (List.append_nil _)

theorem FuncDef.typedOnce_checkBody (f : FuncDef Tag) :
    TypedOnce (f.walk fun _ ↦ false) (f.checkBody t id).events := by
  have hbody : TypedOnce (.body f.body :: f.body.walkParts fun _ ↦ false)
      (f.checkBody t id).events :=
    f.records_checkBody.once.below _
  have hparams : TypedOnce (f.params.flatMap fun p ↦ Node.visit (fun _ ↦ false) (.param p) []) [] :=
    .of_typedIds_eq_nil rfl
  exact (hparams.append hbody).below (.func f)

theorem FuncDef.Run.typedOnce {g : Scope} {t t' : ScopeTable} {seen : List String} {next : ScopeId}
    {fs : List (FuncDef Tag)} {events : List Event}
    (h : FuncDef.Run g t seen next fs t' events) :
    TypedOnce (fs.flatMap (FuncDef.walk fun _ ↦ false)) events := by
  induction h with
  | nil => exact .of_typedIds_eq_nil rfl
  | @shadowed t t' seen next f fs events hname later ih =>
    apply TypedOnce.append _ ih
    apply TypedOnce.of_typedIds_eq_nil
    rw [typedIds_append, f.typedIds_reports]
    rfl
  | @last t t' seen next f fs events hname hg hown later ih =>
    apply TypedOnce.append _ ih
    intro id
    rw [typedIds_append, f.typedIds_reports, typedIds_around]
    exact f.typedOnce_checkBody id

theorem Script.Tour.typedOnce {s : Script Tag} {b : Body Tag} {mid : ScopeTable}
    {events : List Event} (h : s.Tour b mid events) :
    TypedOnce (Node.script s).all (Node.script s).secondWalk.events := by
  have hmain : TypedOnce (.main b :: b.walkParts fun _ ↦ false)
      (Pass.inferring.around mainName (1 + s.funcs.length)
        (b.check mid (1 + s.funcs.length) [] []).events) := by
    intro id
    rw [typedIds_around]
    exact (b.records_check .nil).once.below (.main b) id
  have hall := (h.run.typedOnce.append hmain).below (.script s)
  rw [← List.append_nil (Body.walkParts _ _)] at hall
  rw [h.check, Node.all, Node.walk, Script.walk, h.main]
  exact hall

theorem Node.ReadFrom.typedOnce {source : String} {root : Node Tag} (h : root.ReadFrom source) :
    TypedOnce root.all root.secondWalk.events := by
  cases h with
  | script h =>
    obtain ⟨b, mid, events, htour⟩ := Script.exists_tour h
    exact htour.typedOnce
  | @expr e h => exact (e.records_infer _).once

theorem Node.ReadFrom.typedIds_firstWalk {source : String} {root : Node Tag}
    (h : root.ReadFrom source) : typedIds root.firstWalk.events = [] := by
  cases h with
  | script h =>
    obtain ⟨b, hmain⟩ := Script.exists_main h
    rw [(Script.firstWalk_of_main hmain).2.2, typedIds_append, typedIds_around]
    apply List.append_eq_nil_iff.2
    refine ⟨typedIds_eq_nil fun event hevent ↦ ?_, rfl⟩
    obtain ⟨f, -, hf⟩ := List.mem_flatMap.1 hevent
    rcases List.mem_cons.1 hf with hentered | hleft
    · rw [hentered]
      rfl
    · rw [List.mem_singleton.1 hleft]
      rfl
  | expr h => rfl

namespace TypeTable

variable {types : TypeTable} {id : Nat} {type : Ty} {node : Tag} {events : List Event}

theorem get?_set : (types.set node type).get? id =
    if node.id = id then some type else types.get? id := by
  simp only [set, get?, Std.ExtTreeMap.getElem?_insert, Std.LawfulEqCmp.compare_eq_iff_eq]
  split <;> rfl

theorem getElem?_record (event : Event) (h : event.typedId? ≠ some id) :
    (types.record event).byId[id]? = types.byId[id]? := by
  cases event with
  | typed node type =>
    have hne : node.id ≠ id := fun heq ↦ h (congrArg some heq)
    simp [record, set, Std.ExtTreeMap.getElem?_insert, hne]
  | _ => rfl

theorem getElem?_foldl_record_of_notMem (h : id ∉ typedIds events) :
    (events.foldl record types).byId[id]? = types.byId[id]? := by
  induction events generalizing types with
  | nil => rfl
  | cons event events ih =>
    have hevent : event.typedId? ≠ some id := fun heq ↦
      h (List.mem_filterMap.2 ⟨event, List.mem_cons_self, heq⟩)
    have hevents : id ∉ typedIds events := by
      intro hmem
      obtain ⟨later, hlater, hid⟩ := List.mem_filterMap.1 hmem
      exact h (List.mem_filterMap.2 ⟨later, List.mem_cons_of_mem _ hlater, hid⟩)
    exact (ih hevents).trans (getElem?_record event hevent)

/-- A node that is given a type once has that type. -/
theorem getElem?_foldl_record (hnodup : (typedIds events).Nodup) (h : .typed node type ∈ events) :
    (events.foldl record types).byId[node.id]? = some ⟨node, type⟩ := by
  induction events generalizing types with
  | nil => cases h
  | cons event events ih =>
    rcases List.mem_cons.1 h with heq | hlater
    · subst heq
      have hnotMem : node.id ∉ typedIds events := (List.nodup_cons.1 hnodup).1
      rw [List.foldl_cons, getElem?_foldl_record_of_notMem hnotMem]
      exact Std.ExtTreeMap.getElem?_insert_self
    · apply ih _ hlater
      exact List.Nodup.sublist ((List.sublist_cons_self event events).filterMap _) hnodup

/-- What is in the table was there before or was given. -/
theorem getElem?_foldl_record_cases {typed : Typed}
    (h : (events.foldl record types).byId[id]? = some typed) :
    types.byId[id]? = some typed ∨
      typed.node.id = id ∧ .typed typed.node typed.type ∈ events := by
  induction events generalizing types with
  | nil => exact .inl h
  | cons event events ih =>
    rcases ih h with hbefore | ⟨hid, hmem⟩
    · by_cases hevent : event.typedId? = some id
      · cases event with
        | typed node type =>
          obtain rfl : node.id = id := Option.some.inj hevent
          have hlast := Std.ExtTreeMap.getElem?_insert_self.symm.trans hbefore
          cases hlast
          exact .inr ⟨rfl, List.mem_cons_self⟩
        | _ => cases hevent
      · exact .inl ((getElem?_record event hevent).symm.trans hbefore)
    · exact .inr ⟨hid, List.mem_cons_of_mem _ hmem⟩

end TypeTable

theorem typedIds_filter_admits (options : Options) (events : List Event) :
    typedIds (events.filter options.admits) = typedIds events := by
  induction events with
  | nil => rfl
  | cons event events ih =>
    rw [List.filter_cons]
    cases event with
    | typed node type => exact congrArg (node.id :: ·) ih
    | _ => split <;> exact ih

/-- The table of types after an analysis holds just what the second walk gave. -/
theorem Node.ReadFrom.types_getElem?_iff {source : String} {root : Node Tag}
    (h : root.ReadFrom source) (options : Options) {id : Nat} {typed : Typed} :
    (root.analyze options).types.byId[id]? = some typed ↔
      typed.node.id = id ∧ .typed typed.node typed.type ∈ root.secondWalk.events := by
  have htypes : (root.analyze options).types =
      (root.secondWalk.events.filter options.admits).foldl TypeTable.record
        ((root.firstWalk.events.filter options.admits).foldl TypeTable.record .empty) := rfl
  have hfirst : ((root.firstWalk.events.filter options.admits).foldl TypeTable.record
      .empty).byId[id]? = none := by
    rw [TypeTable.getElem?_foldl_record_of_notMem]
    · simp [TypeTable.empty]
    · rw [typedIds_filter_admits, h.typedIds_firstWalk]
      exact List.not_mem_nil
  rw [htypes]
  constructor
  · intro hget
    rcases TypeTable.getElem?_foldl_record_cases hget with hbefore | ⟨hid, hmem⟩
    · rw [hfirst] at hbefore
      cases hbefore
    · exact ⟨hid, (List.mem_filter.1 hmem).1⟩
  · rintro ⟨rfl, hmem⟩
    apply TypeTable.getElem?_foldl_record
    · rw [typedIds_filter_admits]
      exact h.typedOnce.nodup h.nodup_ids
    · exact List.mem_filter.2 ⟨hmem, rfl⟩

theorem Node.ReadFrom.types_get?_iff {source : String} {root : Node Tag}
    (h : root.ReadFrom source) (options : Options) {id : Nat} {type : Ty} :
    (root.analyze options).types.get? id = some type ↔
      ∃ node : Tag, node.id = id ∧ .typed node type ∈ root.secondWalk.events := by
  rw [TypeTable.get?, Option.map_eq_some_iff]
  simp only [h.types_getElem?_iff options]
  constructor
  · rintro ⟨typed, ⟨hid, hmem⟩, rfl⟩
    exact ⟨typed.node, hid, hmem⟩
  · rintro ⟨node, hid, hmem⟩
    exact ⟨⟨node, type⟩, ⟨hid, hmem⟩, rfl⟩

theorem Inference.prefix_conclude (node : Tag) (events : List Event) (r : Except Violation Ty) :
    events <+: (conclude node events r).events := by
  cases r <;> exact List.prefix_append _ _

/-- The last that happens to an expression is that it is given its type. -/
theorem Expr.infer_ends (env : Env) (e : Expr Tag) :
    ∃ before, (e.infer env).events = before ++ [.typed e.note (e.infer env).type] := by
  have hconclude (node : Tag) (events : List Event) (r : Except Violation Ty) :
      ∃ before, (Inference.conclude node events r).events =
        before ++ [.typed node (Inference.conclude node events r).type] := by
    cases r with
    | ok type => exact ⟨events, rfl⟩
    | error violation => exact ⟨events ++ [.reported node violation], by simp [Inference.conclude]⟩
  cases e with
  | ident note name =>
    rw [Expr.infer]
    split <;> exact hconclude _ _ _
  | _ => exact hconclude _ _ _

theorem Expr.typed_mem_infer (env : Env) (e : Expr Tag) :
    .typed e.note (e.infer env).type ∈ (e.infer env).events := by
  obtain ⟨before, hevents⟩ := e.infer_ends env
  rw [hevents]
  exact List.mem_append_right before (List.mem_singleton_self _)

mutual

/-- The walk through an expression contains that through each expression inside it. -/
theorem Expr.infix_infer {env : Env} {inner e : Expr Tag}
    (h : .expr inner ∈ e.walk fun _ ↦ false) :
    (inner.infer env).events <:+: (e.infer env).events := by
  match e with
  | .int note value | .string note value | .bool note value | .ident note value =>
    cases List.mem_singleton.1 h
    exact List.infix_rfl
  | .negate note op operand =>
    rcases List.mem_cons.1 h with heq | hbelow
    · cases heq
      exact List.infix_rfl
    · exact (Expr.infix_infer hbelow).trans (Inference.prefix_conclude _ _ _).isInfix
  | .parens note operand =>
    rcases List.mem_cons.1 h with heq | hbelow
    · cases heq
      exact List.infix_rfl
    · exact (Expr.infix_infer hbelow).trans (Inference.prefix_conclude _ _ _).isInfix
  | .binary note op left right =>
    rcases List.mem_cons.1 h with heq | hbelow
    · cases heq
      exact List.infix_rfl
    · have hboth : (inner.infer env).events <:+:
          (left.infer env).events ++ (right.infer env).events := by
        rcases List.mem_append.1 hbelow with hleft | hright
        · exact (Expr.infix_infer hleft).trans (List.prefix_append _ _).isInfix
        · exact (Expr.infix_infer hright).trans (List.suffix_append _ _).isInfix
      exact hboth.trans (Inference.prefix_conclude _ _ _).isInfix
  | .call note callee args =>
    rcases List.mem_cons.1 h with heq | hbelow
    · cases heq
      exact List.infix_rfl
    · exact (Expr.infix_inferAll hbelow).trans (Inference.prefix_conclude _ _ _).isInfix

theorem Expr.infix_inferAll {env : Env} {inner : Expr Tag} {es : List (Expr Tag)}
    (h : .expr inner ∈ Expr.walkAll (fun _ ↦ false) es) :
    (inner.infer env).events <:+: (Expr.inferAll env es).2 := by
  match es with
  | [] => cases h
  | e :: es =>
    rcases List.mem_append.1 h with hfirst | hothers
    · exact (Expr.infix_infer hfirst).trans (List.prefix_append _ _).isInfix
    · exact (Expr.infix_inferAll hothers).trans (List.suffix_append _ _).isInfix

end

mutual

/-- The walk through a statement contains that through each expression in it. -/
theorem Stmt.infix_check {setting : Setting} {e : Expr Tag} {s : Stmt Tag}
    (h : .expr e ∈ s.walk fun _ ↦ false) :
    (e.infer setting.env).events <:+: s.check setting := by
  match s with
  | .assign note target value | .print note value | .ret note (some value) =>
    have hbelow := (List.mem_cons.1 h).resolve_left (by simp)
    exact (Expr.infix_infer hbelow).trans (List.prefix_append _ _).isInfix
  | .loop note condition body =>
    have hbelow := (List.mem_cons.1 h).resolve_left (by simp)
    apply List.IsInfix.trans _ (List.prefix_append _ _).isInfix
    rcases List.mem_append.1 hbelow with hcondition | hbody
    · exact (Expr.infix_infer hcondition).trans (List.prefix_append _ _).isInfix
    · exact (Block.infix_check hbody).trans (List.suffix_append _ _).isInfix
  | .branch note condition whenTrue none =>
    have hbelow := (List.mem_cons.1 h).resolve_left (by simp)
    apply List.IsInfix.trans _ (List.prefix_append _ _).isInfix
    rcases List.mem_append.1 hbelow with hcondition | htrue
    · exact (Expr.infix_infer hcondition).trans (List.prefix_append _ _).isInfix
    · exact (Block.infix_check htrue).trans (List.suffix_append _ _).isInfix
  | .branch note condition whenTrue (some whenFalse) =>
    have hbelow := (List.mem_cons.1 h).resolve_left (by simp)
    apply List.IsInfix.trans _ (List.prefix_append _ _).isInfix
    rcases List.mem_append.1 hbelow with hboth | hfalse
    · apply List.IsInfix.trans _ (List.prefix_append _ _).isInfix
      rcases List.mem_append.1 hboth with hcondition | htrue
      · exact (Expr.infix_infer hcondition).trans (List.prefix_append _ _).isInfix
      · exact (Block.infix_check htrue).trans (List.suffix_append _ _).isInfix
    · exact (Block.infix_check hfalse).trans (List.suffix_append _ _).isInfix
  | .ret note none => cases (List.mem_singleton.1 h)
  | .call note callNote callee args =>
    exact Expr.infix_infer ((List.mem_cons.1 h).resolve_left (by simp))

theorem Block.infix_check {setting : Setting} {flow : Flow} {e : Expr Tag} {b : Block Tag}
    (h : .expr e ∈ b.walk fun _ ↦ false) :
    (e.infer setting.env).events <:+: b.check setting flow := by
  match b with
  | .mk note stmts => exact Stmt.infix_checkAll ((List.mem_cons.1 h).resolve_left (by simp))

theorem Stmt.infix_checkAll {setting : Setting} {flow : Flow} {e : Expr Tag}
    {stmts : List (Stmt Tag)} (h : .expr e ∈ Stmt.walkAll (fun _ ↦ false) stmts) :
    (e.infer setting.env).events <:+: Stmt.checkAll setting flow stmts := by
  match stmts with
  | [] => cases h
  | s :: stmts =>
    rcases List.mem_append.1 h with hfirst | hothers
    · apply List.IsInfix.trans _ (List.prefix_append _ _).isInfix
      exact (Stmt.infix_check hfirst).trans (List.suffix_append _ _).isInfix
    · exact (Stmt.infix_checkAll hothers).trans (List.suffix_append _ _).isInfix

end

theorem VarDecl.infix_check {d : VarDecl Tag} {e : Expr Tag} (h : d.init = some e) :
    (e.infer (t.env id)).events <:+: (d.check t id).events := by
  unfold VarDecl.check
  simp only [h, Option.map_some, Option.getD_some]
  split
  · exact (List.prefix_append _ _).isInfix
  · split
    · exact (List.prefix_append _ _).isInfix
    · exact List.infix_rfl

theorem infix_closeLocals {events : List Event} {locals : List Local} :
    events <:+: (closeLocals t id events locals).events := by
  unfold closeLocals
  simp only
  split
  · exact List.infix_rfl
  · exact (List.prefix_append _ _).isInfix

end ScriptAnalysis
