import ScriptAnalysis.Proofs.Events

/-!
# The two walks go in step

Both walks come to their end. The second enters and leaves scopes in the order of the first, each
under the name and in the place that the first made for the same part, but passes by a definition
that a later one of its name replaces. Inside a body, a stack of frames can say which of the open
blocks has returned; the stack never runs empty, and it is left as it was found.
-/

namespace ScriptAnalysis

open ScopeTable (globalId mainName)

/-- Entering or leaving a scope. -/
inductive Move where
  | enter (name : String) (scope : ScopeId)
  | leave (name : String) (scope : ScopeId)
  deriving DecidableEq

def Event.move? : Event → Option Move
  | .entered _ name scope => some (.enter name scope)
  | .left _ name scope => some (.leave name scope)
  | _ => none

def moves (events : List Event) : List Move := events.filterMap Event.move?

/-- Entering a scope and leaving it at once. -/
def Move.pair (part : String × ScopeId) : List Move := [.enter part.1 part.2, .leave part.1 part.2]

/-- Whether every scope that is entered is left again, the inner ones before the outer ones. -/
inductive Bracketed : List Move → Prop
  | nil : Bracketed []
  | nest {name : String} {scope : ScopeId} {inner : List Move} (h : Bracketed inner) :
      Bracketed (.enter name scope :: inner ++ [.leave name scope])
  | append {first second : List Move} (h : Bracketed first) (h' : Bracketed second) :
      Bracketed (first ++ second)

theorem bracketed_flatMap_pair (parts : List (String × ScopeId)) :
    Bracketed (parts.flatMap Move.pair) := by
  induction parts with
  | nil => exact .nil
  | cons part parts ih => exact (Bracketed.nest .nil).append ih

@[simp] theorem moves_append (events events' : List Event) :
    moves (events ++ events') = moves events ++ moves events' :=
  List.filterMap_append

theorem moves_around (pass : Pass) (name : String) (scope : ScopeId) (events : List Event) :
    moves (pass.around name scope events) =
      .enter name scope :: moves events ++ [.leave name scope] := by
  change Move.enter name scope :: moves (events ++ [.left pass name scope]) = _
  rw [moves_append]
  rfl

/-- No scope is entered inside a body. -/
theorem moves_of_about {nodes : List (Node Tag)} {events : List Event}
    (h : ∀ event ∈ events, event.About nodes) : moves events = [] := by
  apply List.filterMap_eq_nil_iff.2
  intro event hevent
  cases h event hevent <;> rfl

/-- Takes out the parts whose name comes again later. -/
def unshadowed : List (String × ScopeId) → List (String × ScopeId)
  | [] => []
  | part :: parts =>
    if part.1 ∈ parts.map Prod.fst then unshadowed parts else part :: unshadowed parts

theorem unshadowed_append_singleton {parts : List (String × ScopeId)} {part : String × ScopeId}
    (h : part.1 ∉ parts.map Prod.fst) :
    unshadowed (parts ++ [part]) = unshadowed parts ++ [part] := by
  induction parts with
  | nil => rfl
  | cons first parts ih =>
    rw [List.map_cons, List.mem_cons, not_or] at h
    have hiff : first.1 ∈ (parts ++ [part]).map Prod.fst ↔ first.1 ∈ parts.map Prod.fst := by
      rw [List.map_append, List.mem_append, List.map_singleton, List.mem_singleton,
        or_iff_left (Ne.symm h.1)]
    rw [List.cons_append, unshadowed, unshadowed, ih h.2]
    by_cases hmem : first.1 ∈ parts.map Prod.fst
    · rw [if_pos hmem, if_pos (hiff.2 hmem)]
    · rw [if_neg hmem, if_neg fun hmem' ↦ hmem (hiff.1 hmem')]
      rfl

/-- The names of the parts of a node that have scopes of their own, in their order. -/
def Node.scopeNames {α : Type} : Node α → List String
  | .script s => s.funcs.map FuncDef.name ++ s.main.toList.map fun _ ↦ mainName
  | .func f => [f.name]
  | .main _ => [mainName]
  | _ => []

/-- The parts of a node that have scopes of their own, each with the place of its scope. -/
def Node.scopedParts {α : Type} (root : Node α) : List (String × ScopeId) :=
  root.scopeNames.zipIdx 1

theorem Script.scopedParts_of_main {s : Script Tag} {b : Body Tag} (h : s.main = some b) :
    (Node.script s).scopedParts =
      (s.funcs.map FuncDef.name).zipIdx 1 ++ [(mainName, 1 + s.funcs.length)] := by
  rw [Node.scopedParts, Node.scopeNames, h, List.zipIdx_append, List.length_map]
  rfl

theorem Script.moves_firstWalk {s : Script Tag} {b : Body Tag} (h : s.main = some b) :
    moves (Node.script s).firstWalk.events = (Node.script s).scopedParts.flatMap Move.pair := by
  have hfuncs (fs : List (FuncDef Tag)) (next : ScopeId) :
      moves ((fs.zipIdx next).flatMap fun f ↦ Pass.declaring.around f.1.name f.2 []) =
        ((fs.map FuncDef.name).zipIdx next).flatMap Move.pair := by
    induction fs generalizing next with
    | nil => rfl
    | cons f fs ih =>
      rw [List.zipIdx_cons, List.flatMap_cons, moves_append, ih, moves_around]
      rfl
  rw [(firstWalk_of_main h).2.2, scopedParts_of_main h, moves_append, hfuncs, moves_around,
    List.flatMap_append]
  rfl

theorem FuncDef.Run.moves_eq {g : Scope} {t t' : ScopeTable} {seen : List String} {next : ScopeId}
    {fs : List (FuncDef Tag)} {events : List Event}
    (h : FuncDef.Run g t seen next fs t' events) :
    moves events = (unshadowed ((fs.map FuncDef.name).zipIdx next)).flatMap Move.pair := by
  have hreports (f : FuncDef Tag) (seen : List String) : moves (f.reports seen) = [] :=
    moves_of_about fun event hevent ↦ (f.quiet_reports seen event hevent).1
  induction h with
  | nil => rfl
  | @shadowed t t' seen next f fs events hname later ih =>
    rw [moves_append, moves_append, hreports, ih, List.map_cons, List.zipIdx_cons, unshadowed,
      List.zipIdx_map_fst, if_pos hname]
    rfl
  | @last t t' seen next f fs events hname hg hown later ih =>
    rw [moves_append, moves_append, hreports, moves_around,
      moves_of_about f.records_checkBody.about, ih, List.map_cons, List.zipIdx_cons, unshadowed,
      List.zipIdx_map_fst, if_neg hname]
    rfl

theorem Script.Tour.moves_secondWalk {s : Script Tag} {b : Body Tag} {mid : ScopeTable}
    {events : List Event} (h : s.Tour b mid events) (hfs : ∀ f ∈ s.funcs, f.Written) :
    moves (Node.script s).secondWalk.events =
      (unshadowed (Node.script s).scopedParts).flatMap Move.pair := by
  have hmain : mainName ∉ ((s.funcs.map FuncDef.name).zipIdx 1).map Prod.fst := by
    rw [List.zipIdx_map_fst]
    intro hmem
    obtain ⟨f, hf, hname⟩ := List.mem_map.1 hmem
    exact (hfs f hf).name hname
  rw [h.check, scopedParts_of_main h.main, unshadowed_append_singleton hmain, List.flatMap_append,
    moves_append, h.run.moves_eq, moves_around, moves_of_about (b.records_check .nil).about]
  rfl

/-- Closes the innermost frame, if there is one. -/
def popFrame? : List Bool → Option (Bool × List Bool)
  | [] => none
  | returned :: frames => some (returned, frames)

/-- Notes in the innermost frame, if there is one, that its block has returned. -/
def markReturned : List Bool → List Bool
  | [] => []
  | _ :: frames => true :: frames

mutual

/-- Walks a statement with a frame for each open block, the innermost first. The walk fails where a
frame is to be closed and none is left. -/
def Stmt.checkFramed (setting : Setting) (frames : List Bool) :
    Stmt Tag → Option (List Event × List Bool)
  | .assign note target value => some ((Stmt.assign note target value).check setting, frames)
  | .loop note condition body => do
    let found := condition.infer setting.env
    let (inner, _, frames) ← body.checkFramed setting frames
    some (found.events ++ inner
      ++ verdict note (Rule.loopCondition condition.note.text found.type), frames)
  | .branch note condition whenTrue none => do
    let found := condition.infer setting.env
    let (inner, _, frames) ← whenTrue.checkFramed setting frames
    some (found.events ++ inner
      ++ verdict note (Rule.branchCondition condition.note.text found.type), frames)
  | .branch note condition whenTrue (some whenFalse) => do
    let found := condition.infer setting.env
    let (inner, _, frames) ← whenTrue.checkFramed setting frames
    let (other, _, frames) ← whenFalse.checkFramed setting frames
    some (found.events ++ inner ++ other
      ++ verdict note (Rule.branchCondition condition.note.text found.type), frames)
  | .print note value => some ((Stmt.print note value).check setting, frames)
  | .ret note value => some ((Stmt.ret note value).check setting, markReturned frames)
  | .call note callNote callee args =>
    some ((Stmt.call note callNote callee args).check setting, frames)

/-- Walks a block in a frame of its own and answers whether the block has returned. -/
def Block.checkFramed (setting : Setting) (frames : List Bool) :
    Block Tag → Option (List Event × Bool × List Bool)
  | .mk _ stmts => do
    let (events, frames) ← Stmt.checkAllFramed setting false (false :: frames) stmts
    let (returned, frames) ← popFrame? frames
    some (events, returned, frames)

/-- The first statement behind a return is warned of, unless one was before. -/
def Stmt.checkAllFramed (setting : Setting) (warned : Bool) (frames : List Bool) :
    List (Stmt Tag) → Option (List Event × List Bool)
  | [] => some ([], frames)
  | first :: others => do
    let late := !warned && frames.head? == some true
    let warning : List Event := if late then [.warned first.note.span .unreachable] else []
    let (events, frames) ← first.checkFramed setting frames
    let (later, frames) ← Stmt.checkAllFramed setting (warned || late) frames others
    some (warning ++ events ++ later, frames)

end

/-- How far a block has come whose innermost frame says whether it has returned. -/
def Flow.ofFrame (warned returned : Bool) : Flow :=
  if warned then .silent else if returned then .returned else .live

section

variable (setting : Setting)

mutual

theorem Stmt.checkFramed_eq (returned : Bool) (frames : List Bool) (s : Stmt Tag) :
    s.checkFramed setting (returned :: frames) =
      some (s.check setting, (returned || s.isReturn) :: frames) := by
  match s with
  | .assign note target value | .print note value => simp [Stmt.checkFramed, Stmt.isReturn]
  | .loop note condition body =>
    simp [Stmt.checkFramed, Stmt.check, Stmt.isReturn, body.checkFramed_eq]
  | .branch note condition whenTrue none =>
    simp [Stmt.checkFramed, Stmt.check, Stmt.isReturn, whenTrue.checkFramed_eq]
  | .branch note condition whenTrue (some whenFalse) =>
    simp [Stmt.checkFramed, Stmt.check, Stmt.isReturn, whenTrue.checkFramed_eq,
      whenFalse.checkFramed_eq]
  | .ret note value => simp [Stmt.checkFramed, Stmt.isReturn, markReturned]
  | .call note callNote callee args => simp [Stmt.checkFramed, Stmt.isReturn]

/-- A block finds the frame that it opened when it closes it. -/
theorem Block.checkFramed_eq (frames : List Bool) (b : Block Tag) :
    b.checkFramed setting frames =
      some (b.check setting .live, b.stmts.any Stmt.isReturn, frames) := by
  match b with
  | .mk note stmts =>
    rw [Block.checkFramed, Stmt.checkAllFramed_eq false false frames stmts]
    rfl

theorem Stmt.checkAllFramed_eq (warned returned : Bool) (frames : List Bool)
    (stmts : List (Stmt Tag)) :
    Stmt.checkAllFramed setting warned (returned :: frames) stmts =
      some (Stmt.checkAll setting (Flow.ofFrame warned returned) stmts,
        (returned || stmts.any Stmt.isReturn) :: frames) := by
  match stmts with
  | [] => simp [Stmt.checkAllFramed, Stmt.checkAll]
  | s :: stmts =>
    have hlate : Flow.ofFrame (warned || (!warned && returned)) (returned || s.isReturn) =
        (Flow.ofFrame warned returned).after s.isReturn := by
      cases warned <;> cases returned <;> cases s.isReturn <;> rfl
    have hwarning : (if (!warned && returned) = true
        then [Event.warned s.note.span .unreachable] else []) =
          (Flow.ofFrame warned returned).warning s.note := by
      cases warned <;> cases returned <;> rfl
    rw [Stmt.checkAllFramed]
    simp only [List.head?_cons, Option.some_beq_some, beq_true, s.checkFramed_eq,
      Stmt.checkAllFramed_eq, hlate, hwarning, Option.bind_eq_bind, Option.bind_some]
    rw [Stmt.checkAll, List.any_cons, Bool.or_assoc]

end

end

theorem Script.Tour.size_secondWalk {s : Script Tag} {b : Body Tag} {mid : ScopeTable}
    {events : List Event} (h : s.Tour b mid events) :
    (Node.script s).secondWalk.scopes.size = (Node.script s).firstWalk.scopes.size := by
  rw [h.check]
  exact b.size_check.trans h.run.size_eq

/-- The type of an expression is on record as soon as the expression is walked. -/
theorem Expr.get?_of_infer (options : Options) (types : TypeTable) (env : Env) (e : Expr Tag) :
    (((e.infer env).events.filter options.admits).foldl TypeTable.record types).get? e.note.id =
      some (e.infer env).type := by
  obtain ⟨before, hevents⟩ := e.infer_ends env
  have hkept : [Event.typed e.note (e.infer env).type].filter options.admits =
      [.typed e.note (e.infer env).type] := rfl
  rw [hevents, List.filter_append, hkept, List.foldl_append]
  exact TypeTable.get?_set.trans (if_pos rfl)

/-- Every source that can be read is walked twice to the end. The second walk makes no scope, and
apart from shadowed definitions it enters and leaves the scopes that the first walk made, for the
same parts in the same order; each body is walked in the scope of its own part, as the first walk
left it. While it goes, the frames of open blocks and the types of initial values are where they
are looked for. -/
theorem walks_in_lockstep {source : String} {root : Node Tag} (h : root.ReadFrom source)
    (options : Options) :
    root.firstWalk.fault = none ∧ (root.analyze options).fault = none ∧
    ((root.analyze options).scopes.size = root.firstWalk.scopes.size ∧
      (∀ s, root = .script s → (root.analyze options).scopes.size = 2 + s.funcs.length) ∧
      ∀ e, root = .expr e → (root.analyze options).scopes.size = 1) ∧
    (moves root.firstWalk.events = root.scopedParts.flatMap Move.pair ∧
      moves root.secondWalk.events = (unshadowed root.scopedParts).flatMap Move.pair ∧
      Bracketed (moves root.secondWalk.events)) ∧
    (∀ s id params body, root = .script s → s.Visits id params body →
      ∃ t name returns locals closing,
        t.scope? id = some (Param.openScope name returns params) ∧
        t.scope? id = root.firstWalk.scopes.scope? id ∧
        Pass.inferring.around name id (body.check t id locals closing).events <:+:
          root.secondWalk.events) ∧
    (∀ setting frames (b : Block Tag), b.checkFramed setting frames =
      some (b.check setting .live, b.stmts.any Stmt.isReturn, frames)) ∧
    ∀ types env (e : Expr Tag),
      (((e.infer env).events.filter options.admits).foldl TypeTable.record types).get? e.note.id =
        some (e.infer env).type := by
  have hframes := Block.checkFramed_eq
  have htypes := Expr.get?_of_infer options
  cases h with
  | @script s h =>
    obtain ⟨b, mid, events, htour⟩ := Script.exists_tour h
    obtain ⟨hfault, hsize, -⟩ := Script.firstWalk_of_main htour.main
    have hkept : ((Node.script s).analyze options).scopes.size =
        (Node.script s).firstWalk.scopes.size := htour.size_secondWalk
    have hmoves := htour.moves_secondWalk (Script.written_of_parse h).1
    have hbracketed : Bracketed (moves (Node.script s).secondWalk.events) := by
      rw [hmoves]
      exact bracketed_flatMap_pair _
    have hended : ((Node.script s).analyze options).fault = none :=
      congrArg Walk.fault htour.check
    refine ⟨hfault, hended, ⟨hkept, ?_, by simp⟩,
      ⟨Script.moves_firstWalk htour.main, hmoves, hbracketed⟩, ?_, hframes, htypes⟩
    · rintro _ ⟨⟩
      exact hkept.trans hsize
    · rintro _ id params body ⟨⟩ hvisits
      obtain ⟨t, name, returns, locals, closing, hinside, hsame, hevents, -⟩ :=
        htour.visit hvisits
      exact ⟨t, name, returns, locals, closing, hinside.inner, hsame, hevents⟩
  | @expr e h =>
    have hmoves : moves (Node.expr e).secondWalk.events = [] :=
      moves_of_about (e.records_infer _).about
    refine ⟨rfl, rfl, ⟨rfl, by simp, fun _ _ ↦ rfl⟩, ⟨rfl, hmoves, ?_⟩, by simp, hframes, htypes⟩
    rw [hmoves]
    exact .nil

/-- Of two definitions of a name only the second is entered, in the second of their scopes. -/
theorem walks_in_lockstep_shadowed :
    ∃ s, Script.parse "func f(){}func f(a:Int){}f(1)" = .ok s ∧
      ((Node.script s).analyze {}).scopes.size = 4 ∧
      moves (Node.script s).secondWalk.events =
        [.enter "f" 2, .leave "f" 2, .enter mainName 3, .leave mainName 3] := by
  -- Only the shape of the tree matters here, not its notes.
  obtain ⟨_, _, _, _, _, _, _, _, _, _, _, _, _, _, _, _, _, hs⟩ :
      ∃ a b c d e f g h i j k l m n o p q,
        Script.parse "func f(){}func f(a:Int){}f(1)" =
          .ok ⟨a, [⟨b, "f", [], "", ⟨c, ⟨d, []⟩, .mk e []⟩⟩,
            ⟨f, "f", [⟨g, "a", "Int"⟩], "", ⟨h, ⟨i, []⟩, .mk j []⟩⟩],
              some ⟨k, ⟨l, []⟩, .mk m [.call n o p [.int q "1"]]⟩⟩ := by
    refine ⟨?_, ?_, ?_, ?_, ?_, ?_, ?_, ?_, ?_, ?_, ?_, ?_, ?_, ?_, ?_, ?_, ?_, ?parse⟩
    case parse =>
      cbv
      rfl
  obtain ⟨-, -, ⟨-, hsize, -⟩, ⟨-, hmoves, -⟩, -⟩ := walks_in_lockstep (.script hs) {}
  exact ⟨_, hs, hsize _ rfl, hmoves⟩

end ScriptAnalysis
