import ScriptAnalysis.Proofs.OptionEffects
import ScriptAnalysis.Proofs.Warnings

/-!
# Unreachable statements and missing returns

The warnings of control flow can be told from the blocks of a program alone. A block of a body that
is walked is warned of just if a statement follows a return in it, at the statement behind the first
return, whatever the blocks inside it and around it hold. A function is warned of just if it returns
something and no return stands directly in its block.
-/

namespace ScriptAnalysis

def Node.block? {α : Type} : Node α → Option (Block α)
  | .block b => some b
  | _ => none

/-- The blocks of a tree, those inside other blocks included. -/
def Node.blocks {α : Type} (root : Node α) : List (Block α) := root.all.filterMap Node.block?

/-- The blocks of the bodies that are walked. -/
def Script.walkedBlocks (s : Script Tag) : List (Block Tag) :=
  (FuncDef.lasts s.funcs).flatMap (fun f ↦ (Node.func f).blocks) ++
    s.main.toList.flatMap fun main ↦ (Node.main main).blocks

/-- The statement right behind the first return. -/
def Stmt.behindReturn? {α : Type} (stmts : List (Stmt α)) : Option (Stmt α) :=
  (stmts.dropWhile fun s ↦ !s.isReturn)[1]?

def Stmt.unreachable (s : Stmt Tag) : Warning :=
  ⟨s.note.span, "W0004", "unreachable code: statement after return"⟩

/-- The warning that a block calls for. -/
def Block.unreachable? (b : Block Tag) : Option Warning :=
  (Stmt.behindReturn? b.stmts).map Stmt.unreachable

/-- Whether a function returns something and has no return directly in its block. -/
def FuncDef.mayFallThrough (f : FuncDef Tag) : Bool :=
  f.signature.returns ≠ .void && !f.body.block.stmts.any Stmt.isReturn

/-- The warning that a function calls for. -/
def FuncDef.missingReturn? (f : FuncDef Tag) : Option Warning :=
  if f.mayFallThrough then
    some ⟨f.note.span, "W0006", "function " ++ Text.quote f.name ++ " returns " ++
      f.signature.returns.name ++ " but may fall through without an explicit return"⟩
  else none

/-- The statement that is warned of among those to come. -/
def Flow.late? : Flow → List (Stmt Tag) → Option (Stmt Tag)
  | .live, stmts => Stmt.behindReturn? stmts
  | .returned, stmts => stmts.head?
  | .silent, _ => none

/-- Either the next statement is warned of, or the one that is warned of comes later. -/
theorem Flow.late?_cons (flow : Flow) (s : Stmt Tag) (stmts : List (Stmt Tag)) :
    (flow.warning s.note).filterMap Event.warning? ++
        ((flow.after s.isReturn).late? stmts).toList.map Stmt.unreachable =
      (flow.late? (s :: stmts)).toList.map Stmt.unreachable := by
  cases flow with
  | live =>
    cases hreturn : s.isReturn with
    | true => simp [warning, after, late?, Stmt.behindReturn?, hreturn, List.head?_eq_getElem?]
    | false => simp [warning, after, late?, Stmt.behindReturn?, hreturn]
  | returned => rfl
  | silent => rfl

/-- Whether the events of a walk over some nodes warn of just the blocks among the nodes that call
for it. -/
def Watches (nodes : List (Node Tag)) (events : List Event) : Prop :=
  (events.filterMap Event.warning?).Perm
    ((nodes.filterMap Node.block?).filterMap Block.unreachable?)

namespace Watches

variable {node : Node Tag} {nodes nodes' : List (Node Tag)} {events events' : List Event}

theorem nil : Watches [] [] := List.Perm.nil

theorem of_silent (h : ∀ event ∈ events, event.warning? = none) : Watches [] events := by
  rw [Watches, List.filterMap_eq_nil_iff.2 h]
  exact .nil

theorem append (h : Watches nodes events) (h' : Watches nodes' events') :
    Watches (nodes ++ nodes') (events ++ events') := by
  rw [Watches, List.filterMap_append, List.filterMap_append, List.filterMap_append]
  exact List.Perm.append h h'

theorem below (h : Watches nodes events) (hnode : node.block? = none) :
    Watches (node :: nodes) events := by
  rwa [Watches, List.filterMap_cons_none hnode]

theorem follow (h : Watches nodes events) (hsilent : ∀ event ∈ events', event.warning? = none) :
    Watches nodes (events ++ events') := by
  have happend := h.append (of_silent hsilent)
  rwa [List.append_nil] at happend

theorem conclude (h : Watches nodes events) (note : Tag) (r : Except Violation Ty) :
    Watches nodes (Inference.conclude note events r).events := by
  cases r with
  | ok type => exact h.follow (by simp [Event.warning?])
  | error violation => exact h.follow (by simp [Event.warning?])

end Watches

theorem Infers.watches {env : Env} {nodes : List (Node Tag)} {events : List Event}
    (h : Infers env nodes events) : Watches nodes events := by
  induction h with
  | nil => exact .nil
  | append _ _ ih ih' => exact ih.append ih'
  | @read note name type _ =>
    have hread : Watches [] [.read name] := .of_silent (by simp [Event.warning?])
    exact (hread.conclude note _).below rfl
  | @unread note name _ => exact (Watches.nil.conclude note _).below rfl
  | @conclude e r _ _ _ _ _ ih => exact (ih.conclude e.note r).below rfl

section

variable (setting : Setting)

mutual

theorem Stmt.watches_check (s : Stmt Tag) :
    Watches (s.walk fun _ ↦ false) (s.check setting) := by
  have hexpr (e : Expr Tag) : Watches (e.walk fun _ ↦ false) (e.infer setting.env).events :=
    (e.infers_infer setting.env).watches
  have hown {nodes : List (Node Tag)} {events : List Event} (h : Watches nodes events)
      (violation : Option Violation) :
      Watches (.stmt s :: nodes) (events ++ verdict s.note violation) :=
    (h.follow (warning?_verdict s.note violation)).below rfl
  match s with
  | .assign _ _ value => exact hown (hexpr value) _
  | .loop _ condition body => exact hown ((hexpr condition).append body.watches_check) _
  | .branch _ condition whenTrue none =>
    exact hown ((hexpr condition).append whenTrue.watches_check) _
  | .branch _ condition whenTrue (some whenFalse) =>
    exact hown (((hexpr condition).append whenTrue.watches_check).append
      whenFalse.watches_check) _
  | .print _ value => exact hown (hexpr value) _
  | .ret _ none => exact hown .nil _
  | .ret _ (some value) => exact hown (hexpr value) _
  | .call _ callNote callee args => exact (hexpr (.call callNote callee args)).below rfl

theorem Block.watches_check (b : Block Tag) :
    Watches (b.walk fun _ ↦ false) (b.check setting .live) := by
  match b with
  | .mk note stmts =>
    have hown (blocks : List (Block Tag)) :
        (.mk note stmts :: blocks).filterMap Block.unreachable? =
          (Flow.live.late? stmts).toList.map Stmt.unreachable ++
            blocks.filterMap Block.unreachable? := by
      rw [List.filterMap_cons, Block.unreachable?, Block.stmts, Flow.late?]
      cases Stmt.behindReturn? stmts <;> rfl
    have hblock : (Block.walk (fun _ ↦ false) (.mk note stmts)).filterMap Node.block? =
        .mk note stmts :: (Stmt.walkAll (fun _ ↦ false) stmts).filterMap Node.block? := rfl
    rw [Watches, hblock, hown]
    exact Stmt.warnings_checkAll .live stmts

/-- What is warned of in the rest of a block is a statement of the rest, and statements of the
blocks inside. -/
theorem Stmt.warnings_checkAll (flow : Flow) (stmts : List (Stmt Tag)) :
    ((Stmt.checkAll setting flow stmts).filterMap Event.warning?).Perm
      ((flow.late? stmts).toList.map Stmt.unreachable ++
        ((Stmt.walkAll (fun _ ↦ false) stmts).filterMap Node.block?).filterMap
          Block.unreachable?) := by
  match stmts with
  | [] => cases flow <;> exact .nil
  | s :: stmts =>
    have hothers := Stmt.warnings_checkAll (flow.after s.isReturn) stmts
    have hfirst : List.Perm _ _ := s.watches_check
    rw [Stmt.checkAll, Stmt.walkAll, List.filterMap_append, List.filterMap_append,
      List.filterMap_append, List.filterMap_append, ← flow.late?_cons, List.append_assoc,
      List.append_assoc]
    -- What is warned of later in the block itself comes behind the blocks inside `s`.
    apply List.Perm.append_left
    exact (hfirst.append hothers).trans (List.perm_append_comm_assoc _ _ _)

end

end

section

variable {t : ScopeTable} {id : ScopeId}

theorem Introduces.watches {env : Env} {d : VarDecl Tag} {nodes : List (Node Tag)}
    {events : List Event} (h : Introduces env d nodes events) : Watches nodes events := by
  cases h with
  | bound h => exact h.watches.below rfl
  | duplicate h => exact (h.watches.follow (by simp [Event.warning?])).below rfl
  | mistyped type h => exact (h.watches.follow (by simp [Event.warning?])).below rfl

theorem VarDecl.watches_checkAll (ds : List (VarDecl Tag)) :
    Watches (ds.flatMap (VarDecl.walk fun _ ↦ false)) (VarDecl.checkAll t id ds).events := by
  induction ds generalizing t with
  | nil => exact .nil
  | cons d ds ih => exact (d.introduces_check t id).watches.append ih

/-- The warning with a code that an event is. -/
def Event.ofCode? (code : String) (event : Event) : Option Warning :=
  event.warning?.filter (·.code = code)

theorem filterMap_ofCode? (code : String) (events : List Event) :
    events.filterMap (Event.ofCode? code) =
      (events.filterMap Event.warning?).filter (·.code = code) :=
  (List.filter_filterMap ..).symm

/-- The end of a body warns of unused names only. -/
theorem ofCode?_closeLocals {code : String} (hcode : code ≠ "W0001") (events : List Event)
    (locals : List Local) :
    (closeLocals t id events locals).events.filterMap (Event.ofCode? code) =
      events.filterMap (Event.ofCode? code) := by
  have hlocal (l : Local) : ∀ event ∈ l.warning t id, event.ofCode? code = none := by
    have hunused : (Caution.unused l.name).code = "W0001" := rfl
    unfold Local.warning
    simp only
    split
    · simp
    · simp [Event.ofCode?, Event.warning?, hunused, hcode.symm]
  unfold closeLocals
  simp only
  split
  · rfl
  · rw [List.filterMap_append, List.append_right_eq_self, List.filterMap_eq_nil_iff]
    intro event hevent
    obtain ⟨l, -, hl⟩ := List.mem_flatMap.1 hevent
    exact hlocal l event hl

theorem filter_code {ws : List Warning} {own : String} (h : ∀ w ∈ ws, w.code = own)
    (code : String) : ws.filter (·.code = code) = if own = code then ws else [] := by
  split
  · next heq =>
    rw [List.filter_eq_self]
    exact fun w hw ↦ decide_eq_true ((h w hw).trans heq)
  · next hne =>
    rw [List.filter_eq_nil_iff]
    exact fun w hw hcode ↦ hne ((h w hw).symm.trans (of_decide_eq_true hcode))

theorem Block.code_unreachable? (blocks : List (Block Tag)) :
    ∀ w ∈ blocks.filterMap Block.unreachable?, w.code = "W0004" := by
  intro w hw
  obtain ⟨b, -, hb⟩ := List.mem_filterMap.1 hw
  obtain ⟨s, -, rfl⟩ := Option.map_eq_some_iff.1 hb
  rfl

/-- The warnings of control flow in a body are those of its blocks, and those that it ends with. -/
theorem Body.ofCode?_check {code : String} (hcode : code ≠ "W0001") (body : Body Tag)
    (params : List Local) (closing : List Event) :
    ((body.check t id params closing).events.filterMap (Event.ofCode? code)).Perm
      ((if "W0004" = code then
          ((body.walkParts fun _ ↦ false).filterMap Node.block?).filterMap Block.unreachable?
        else []) ++ closing.filterMap (Event.ofCode? code)) := by
  have hvars : (Node.vars body.vars).block? = none := rfl
  have hdecls := (@VarDecl.watches_checkAll t id body.vars.decls).below hvars
  have hparts : List.Perm _ _ := hdecls.append
    (body.block.watches_check ((VarDecl.checkAll t id body.vars.decls).scopes.setting id))
  rw [Body.check, ofCode?_closeLocals hcode, List.filterMap_append, filterMap_ofCode?,
    ← filter_code (Block.code_unreachable? _)]
  exact (hparts.filter _).append_right _

end

theorem FuncDef.blocks_eq (f : FuncDef Tag) :
    (Node.func f).blocks = (f.body.walkParts fun _ ↦ false).filterMap Node.block? := by
  have hparams (ps : List (Param Tag)) :
      (ps.flatMap fun p ↦ Node.visit (fun _ ↦ false) (.param p) []).filterMap Node.block? = [] := by
    induction ps with
    | nil => rfl
    | cons p ps ih => exact ih
  have hall : (Node.func f).all =
      .func f :: ((f.params.flatMap fun p ↦ Node.visit (fun _ ↦ false) (.param p) []) ++
        .body f.body :: f.body.walkParts fun _ ↦ false) := rfl
  rw [Node.blocks, hall, List.filterMap_cons_none rfl, List.filterMap_append, hparams,
    List.nil_append, List.filterMap_cons_none rfl]

theorem FuncDef.warnings_fallThrough (f : FuncDef Tag) :
    (f.fallThrough (some (.prim f.signature.returns))).filterMap Event.warning? =
      f.missingReturn?.toList := by
  have hskips : (some (.prim f.signature.returns) = some Ty.void ∨
      f.body.block.stmts.any Stmt.isReturn = true) ↔ f.mayFallThrough = false := by
    simp [FuncDef.mayFallThrough, Ty.void, or_iff_not_imp_left]
  unfold FuncDef.fallThrough FuncDef.missingReturn?
  cases hfalls : f.mayFallThrough with
  | true =>
    rw [if_neg (mt hskips.1 (by simp [hfalls]))]
    rfl
  | false =>
    rw [if_pos (hskips.2 hfalls)]
    rfl

theorem FuncDef.code_missingReturn? (f : FuncDef Tag) :
    ∀ w ∈ f.missingReturn?.toList, w.code = "W0006" := by
  intro w hw
  rw [Option.mem_toList, FuncDef.missingReturn?] at hw
  split at hw
  · cases hw
    rfl
  · cases hw

/-- The warnings of control flow in the body of a function are those of its blocks and its own. -/
theorem FuncDef.ofCode?_checkBody {t : ScopeTable} {id : ScopeId} {g : Scope} {f : FuncDef Tag}
    (h : t.Inside id g f.ownScope) {code : String} (hcode : code ≠ "W0001") :
    ((f.checkBody t id).events.filterMap (Event.ofCode? code)).Perm
      ((if "W0004" = code then (Node.func f).blocks.filterMap Block.unreachable? else []) ++
        if "W0006" = code then f.missingReturn?.toList else []) := by
  have hreturns : (t.setting id).returns = some (.prim f.signature.returns) := by
    rw [ScopeTable.setting, h.inner]
    exact (Param.parent_foldl_declareIn _ f.params).2
  rw [FuncDef.blocks_eq, ← filter_code f.code_missingReturn?, ← f.warnings_fallThrough,
    ← filterMap_ofCode?, ← hreturns]
  exact f.body.ofCode?_check hcode _ _

/-- If warnings are asked for, those of unreachable statements are just those of the blocks that are
walked, each block at most once and at the statement behind its first return. Those of missing
returns are just those of the functions that are the last of their name, in the order of the
program. -/
theorem control_flow_warnings_exact {source : String} {s : Script Tag}
    (h : Script.parse source = .ok s) {options : Options} (hwarnings : options.warnings = true) :
    ((s.analyze options).warnings.filter (·.code = "W0004")).Perm
        (s.walkedBlocks.filterMap Block.unreachable?) ∧
      (s.analyze options).warnings.filter (·.code = "W0006") =
        (FuncDef.lasts s.funcs).filterMap FuncDef.missingReturn? := by
  obtain ⟨b, mid, events, htour⟩ := Script.exists_tour h
  have hwalk (code : String) : (s.analyze options).warnings.filter (·.code = code) =
      (Node.script s).secondWalk.events.filterMap (Event.ofCode? code) := by
    rw [filterMap_ofCode?, ← Options.warnings_filter_admits hwarnings]
    rfl
  have hpick (code : String) (event : Event) (hevent : event.warning? = none) :
      event.ofCode? code = none := by
    rw [Event.ofCode?, hevent]
    rfl
  have hmain {code : String} (hcode : code ≠ "W0001") :=
    @Body.ofCode?_check mid (1 + s.funcs.length) code hcode b [] []
  constructor
  · rw [hwalk, Script.walkedBlocks, htour.main, List.filterMap_append, List.filterMap_flatMap,
      Option.toList_some, List.flatMap_singleton]
    apply htour.related_events joins_perm (hpick "W0004")
    · intro i f u hf hinside hevents hscope
      have hbody := FuncDef.ofCode?_checkBody hinside (show "W0004" ≠ "W0001" by decide)
      rwa [if_pos rfl, if_neg (by decide), List.append_nil] at hbody
    · intro hinside hevents
      have hbody := hmain (show "W0004" ≠ "W0001" by decide)
      rwa [if_pos rfl, List.filterMap_nil, List.append_nil] at hbody
  · rw [hwalk, @List.filterMap_eq_flatMap_toList _ _ FuncDef.missingReturn?,
      ← List.append_nil (List.flatMap _ _)]
    apply htour.related_events joins_eq (hpick "W0006")
    · intro i f u hf hinside hevents hscope
      have hbody := FuncDef.ofCode?_checkBody hinside (show "W0006" ≠ "W0001" by decide)
      rw [if_neg (by decide), if_pos rfl, List.nil_append] at hbody
      generalize f.missingReturn? = own at hbody ⊢
      cases own with
      | none => exact hbody.eq_nil
      | some w => exact List.perm_singleton.1 hbody
    · intro hinside hevents
      have hbody := hmain (show "W0006" ≠ "W0001" by decide)
      rw [if_neg (by decide)] at hbody
      exact hbody.eq_nil

/-- A return inside a loop is no return of the function, and one inside a branch does not end the
block around it. Of three returns in a row only the second is warned of. -/
theorem control_flow_warnings_exact_nested :
    ∃ s, Script.parse
        "func f(){return return}func f():Int{while x{return}}if x{return return return}return" =
          .ok s ∧
      ((s.analyze {}).warnings.filter (·.code = "W0004")).Perm
        [⟨⟨⟨1, 65⟩, ⟨1, 71⟩⟩, "W0004", "unreachable code: statement after return"⟩] ∧
      (s.analyze {}).warnings.filter (·.code = "W0006") =
        [⟨⟨⟨1, 24⟩, ⟨1, 53⟩⟩, "W0006",
          "function \"f\" returns Int but may fall through without an explicit return"⟩] := by
  obtain ⟨s, hs, hlate, hmissing⟩ : ∃ s, Script.parse
        "func f(){return return}func f():Int{while x{return}}if x{return return return}return" =
          .ok s ∧
      s.walkedBlocks.filterMap Block.unreachable? =
        [⟨⟨⟨1, 65⟩, ⟨1, 71⟩⟩, "W0004", "unreachable code: statement after return"⟩] ∧
      (FuncDef.lasts s.funcs).filterMap FuncDef.missingReturn? =
        [⟨⟨⟨1, 24⟩, ⟨1, 53⟩⟩, "W0006",
          "function \"f\" returns Int but may fall through without an explicit return"⟩] := by
    refine ⟨?_, ?parse, ?_⟩
    case parse =>
      cbv
      rfl
    cbv
    exact ⟨rfl, rfl⟩
  obtain ⟨hperm, heq⟩ := control_flow_warnings_exact hs (rfl : ({} : Options).warnings = true)
  rw [hlate] at hperm
  exact ⟨s, hs, hperm, heq.trans hmissing⟩

end ScriptAnalysis
