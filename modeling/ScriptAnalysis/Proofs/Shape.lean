import ScriptAnalysis.Program.Node
import ScriptAnalysis.Program.Numbering
import ScriptAnalysis.Proofs.StaticSemantics

/-!
# Trees up to their notes

Changing the notes of a tree leaves its shape as it is: the nodes below it are the same but for
their notes, and so are the types of its expressions. A tree that was numbered is the tree before
with numbers added to its notes.
-/

namespace ScriptAnalysis

section

variable {α β γ : Type} (f : α → β)

mutual

def Expr.map : Expr α → Expr β
  | .int note digits => .int (f note) digits
  | .string note lexeme => .string (f note) lexeme
  | .bool note value => .bool (f note) value
  | .ident note name => .ident (f note) name
  | .negate note op operand => .negate (f note) op operand.map
  | .parens note inner => .parens (f note) inner.map
  | .binary note op left right => .binary (f note) op left.map right.map
  | .call note callee args => .call (f note) callee (Expr.mapAll args)

def Expr.mapAll : List (Expr α) → List (Expr β)
  | [] => []
  | first :: others => first.map :: Expr.mapAll others

end

mutual

def Stmt.map : Stmt α → Stmt β
  | .assign note target value => .assign (f note) target (value.map f)
  | .loop note condition body => .loop (f note) (condition.map f) body.map
  | .branch note condition whenTrue none => .branch (f note) (condition.map f) whenTrue.map none
  | .branch note condition whenTrue (some whenFalse) =>
    .branch (f note) (condition.map f) whenTrue.map (some whenFalse.map)
  | .print note value => .print (f note) (value.map f)
  | .ret note none => .ret (f note) none
  | .ret note (some value) => .ret (f note) (some (value.map f))
  | .call note callNote callee args => .call (f note) (f callNote) callee (Expr.mapAll f args)

def Block.map : Block α → Block β
  | .mk note stmts => .mk (f note) (Stmt.mapAll stmts)

def Stmt.mapAll : List (Stmt α) → List (Stmt β)
  | [] => []
  | first :: others => first.map :: Stmt.mapAll others

end

theorem Expr.mapAll_eq_map (es : List (Expr α)) : Expr.mapAll f es = es.map (Expr.map f) := by
  induction es with
  | nil => rfl
  | cons e es ih => rw [Expr.mapAll, List.map_cons, ih]

theorem Stmt.mapAll_eq_map (stmts : List (Stmt α)) :
    Stmt.mapAll f stmts = stmts.map (Stmt.map f) := by
  induction stmts with
  | nil => rfl
  | cons s stmts ih => rw [Stmt.mapAll, List.map_cons, ih]

def Param.map (p : Param α) : Param β := ⟨f p.note, p.name, p.type⟩

def VarDecl.map (d : VarDecl α) : VarDecl β := ⟨f d.note, d.name, d.type, d.init.map (Expr.map f)⟩

def VarBlock.map (vars : VarBlock α) : VarBlock β := ⟨f vars.note, vars.decls.map (VarDecl.map f)⟩

def Body.map (b : Body α) : Body β := ⟨f b.note, b.vars.map f, b.block.map f⟩

def FuncDef.map (g : FuncDef α) : FuncDef β :=
  ⟨f g.note, g.name, g.params.map (Param.map f), g.returns, g.body.map f⟩

def Script.map (s : Script α) : Script β :=
  ⟨f s.note, s.funcs.map (FuncDef.map f), s.main.map (Body.map f)⟩

def Node.map : Node α → Node β
  | .script s => .script (s.map f)
  | .func g => .func (g.map f)
  | .param p => .param (p.map f)
  | .main b => .main (b.map f)
  | .body b => .body (b.map f)
  | .vars v => .vars (v.map f)
  | .block b => .block (b.map f)
  | .decl d => .decl (d.map f)
  | .stmt s => .stmt (s.map f)
  | .expr e => .expr (e.map f)

theorem Expr.note_map (e : Expr α) : (e.map f).note = f e.note := by
  cases e <;> rfl

theorem Stmt.note_map (s : Stmt α) : (s.map f).note = f s.note := by
  match s with
  | .assign .. | .loop .. | .print .. | .call .. => rfl
  | .branch _ _ _ none | .branch _ _ _ (some _) => rfl
  | .ret _ none | .ret _ (some _) => rfl

theorem Node.note_map (node : Node α) : (node.map f).note = f node.note := by
  cases node with
  | stmt s => exact s.note_map f
  | expr e => exact e.note_map f
  | block b => cases b; rfl
  | _ => rfl

mutual

theorem Expr.map_map (g : β → γ) (e : Expr α) : (e.map f).map g = e.map (g ∘ f) := by
  match e with
  | .int .. | .string .. | .bool .. | .ident .. => rfl
  | .negate note op operand => simp only [Expr.map, operand.map_map, Function.comp_apply]
  | .parens note inner => simp only [Expr.map, inner.map_map, Function.comp_apply]
  | .binary note op left right =>
    simp only [Expr.map, left.map_map, right.map_map, Function.comp_apply]
  | .call note callee args => simp only [Expr.map, Expr.mapAll_mapAll, Function.comp_apply]

theorem Expr.mapAll_mapAll (g : β → γ) (es : List (Expr α)) :
    Expr.mapAll g (Expr.mapAll f es) = Expr.mapAll (g ∘ f) es := by
  match es with
  | [] => rfl
  | e :: es => simp only [Expr.mapAll, e.map_map, Expr.mapAll_mapAll]

end

mutual

theorem Stmt.map_map (g : β → γ) (s : Stmt α) : (s.map f).map g = s.map (g ∘ f) := by
  match s with
  | .assign .. | .print .. | .ret _ (some _) =>
    simp only [Stmt.map, Expr.map_map, Function.comp_apply]
  | .loop _ _ body => simp only [Stmt.map, Expr.map_map, body.map_map, Function.comp_apply]
  | .branch _ _ whenTrue none =>
    simp only [Stmt.map, Expr.map_map, whenTrue.map_map, Function.comp_apply]
  | .branch _ _ whenTrue (some whenFalse) =>
    simp only [Stmt.map, Expr.map_map, whenTrue.map_map, whenFalse.map_map, Function.comp_apply]
  | .ret _ none => rfl
  | .call .. => simp only [Stmt.map, Expr.mapAll_mapAll, Function.comp_apply]

theorem Block.map_map (g : β → γ) (b : Block α) : (b.map f).map g = b.map (g ∘ f) := by
  match b with
  | .mk _ stmts => simp only [Block.map, Stmt.mapAll_mapAll g stmts, Function.comp_apply]

theorem Stmt.mapAll_mapAll (g : β → γ) (stmts : List (Stmt α)) :
    Stmt.mapAll g (Stmt.mapAll f stmts) = Stmt.mapAll (g ∘ f) stmts := by
  match stmts with
  | [] => rfl
  | s :: stmts => simp only [Stmt.mapAll, s.map_map, Stmt.mapAll_mapAll g stmts]

end

theorem VarDecl.map_map (g : β → γ) (d : VarDecl α) : (d.map f).map g = d.map (g ∘ f) := by
  have hinit : Expr.map g ∘ Expr.map f = Expr.map (g ∘ f) := funext (Expr.map_map f g)
  simp only [VarDecl.map, Option.map_map, hinit, Function.comp_apply]

theorem Body.map_map (g : β → γ) (b : Body α) : (b.map f).map g = b.map (g ∘ f) := by
  have hdecls : VarDecl.map g ∘ VarDecl.map f = VarDecl.map (g ∘ f) := funext (VarDecl.map_map f g)
  simp only [Body.map, VarBlock.map, List.map_map, hdecls, Block.map_map, Function.comp_apply]

theorem FuncDef.map_map (g : β → γ) (h : FuncDef α) : (h.map f).map g = h.map (g ∘ f) := by
  have hparams : Param.map g ∘ Param.map f = Param.map (g ∘ f) := rfl
  simp only [FuncDef.map, List.map_map, hparams, Body.map_map, Function.comp_apply]

theorem Script.map_map (g : β → γ) (s : Script α) : (s.map f).map g = s.map (g ∘ f) := by
  have hfuncs : FuncDef.map g ∘ FuncDef.map f = FuncDef.map (g ∘ f) := funext (FuncDef.map_map f g)
  have hmain : Body.map g ∘ Body.map f = Body.map (g ∘ f) := funext (Body.map_map f g)
  simp only [Script.map, List.map_map, Option.map_map, hfuncs, hmain, Function.comp_apply]

theorem Node.visit_map (node : Node α) {below : List (Node α)} {below' : List (Node β)}
    (h : below' = below.map (Node.map f)) :
    Node.visit (fun _ ↦ false) (node.map f) below' =
      (Node.visit (fun _ ↦ false) node below).map (Node.map f) :=
  congrArg (node.map f :: ·) h

mutual

theorem Expr.walk_map (e : Expr α) :
    (e.map f).walk (fun _ ↦ false) = (e.walk fun _ ↦ false).map (Node.map f) := by
  match e with
  | .int .. | .string .. | .bool .. | .ident .. => rfl
  | .negate note op operand =>
    exact Node.visit_map f (.expr (.negate note op operand)) operand.walk_map
  | .parens note inner => exact Node.visit_map f (.expr (.parens note inner)) inner.walk_map
  | .binary note op left right =>
    apply Node.visit_map f (.expr (.binary note op left right))
    rw [left.walk_map, right.walk_map, List.map_append]
  | .call note callee args =>
    exact Node.visit_map f (.expr (.call note callee args)) (Expr.walkAll_map args)

theorem Expr.walkAll_map (es : List (Expr α)) :
    Expr.walkAll (fun _ ↦ false) (Expr.mapAll f es) =
      (Expr.walkAll (fun _ ↦ false) es).map (Node.map f) := by
  match es with
  | [] => rfl
  | e :: es =>
    rw [Expr.mapAll, Expr.walkAll, Expr.walkAll, e.walk_map, Expr.walkAll_map es, List.map_append]

end

mutual

theorem Stmt.walk_map (s : Stmt α) :
    (s.map f).walk (fun _ ↦ false) = (s.walk fun _ ↦ false).map (Node.map f) := by
  match s with
  | .assign note target value =>
    exact Node.visit_map f (.stmt (.assign note target value)) (value.walk_map f)
  | .loop note condition body =>
    apply Node.visit_map f (.stmt (.loop note condition body))
    rw [condition.walk_map, body.walk_map, List.map_append]
  | .branch note condition whenTrue none =>
    apply Node.visit_map f (.stmt (.branch note condition whenTrue none))
    rw [condition.walk_map, whenTrue.walk_map, List.map_append]
  | .branch note condition whenTrue (some whenFalse) =>
    apply Node.visit_map f (.stmt (.branch note condition whenTrue (some whenFalse)))
    rw [condition.walk_map, whenTrue.walk_map, whenFalse.walk_map, List.map_append,
      List.map_append]
  | .print note value => exact Node.visit_map f (.stmt (.print note value)) (value.walk_map f)
  | .ret note none => rfl
  | .ret note (some value) =>
    exact Node.visit_map f (.stmt (.ret note (some value))) (value.walk_map f)
  | .call note callNote callee args =>
    exact Node.visit_map f (.stmt (.call note callNote callee args))
      ((Expr.call callNote callee args).walk_map f)

theorem Block.walk_map (b : Block α) :
    (b.map f).walk (fun _ ↦ false) = (b.walk fun _ ↦ false).map (Node.map f) := by
  match b with
  | .mk note stmts => exact Node.visit_map f (.block (.mk note stmts)) (Stmt.walkAll_map stmts)

theorem Stmt.walkAll_map (stmts : List (Stmt α)) :
    Stmt.walkAll (fun _ ↦ false) (Stmt.mapAll f stmts) =
      (Stmt.walkAll (fun _ ↦ false) stmts).map (Node.map f) := by
  match stmts with
  | [] => rfl
  | s :: stmts =>
    rw [Stmt.mapAll, Stmt.walkAll, Stmt.walkAll, s.walk_map, Stmt.walkAll_map stmts,
      List.map_append]

end

/-- Walking the changed parts one after the other changes the walks over the parts. -/
theorem flatMap_walk_map {δ ε : Type} {g : δ → ε} {walk : δ → List (Node α)}
    {walk' : ε → List (Node β)} (h : ∀ x, walk' (g x) = (walk x).map (Node.map f)) (xs : List δ) :
    (xs.map g).flatMap walk' = (xs.flatMap walk).map (Node.map f) := by
  rw [List.flatMap_map, List.map_flatMap]
  exact congrArg (xs.flatMap ·) (funext h)

theorem VarDecl.walk_map (d : VarDecl α) :
    (d.map f).walk (fun _ ↦ false) = (d.walk fun _ ↦ false).map (Node.map f) := by
  apply Node.visit_map f (.decl d)
  rw [VarDecl.map, Option.toList_map]
  exact flatMap_walk_map f (Expr.walk_map f) d.init.toList

theorem Body.walkParts_map (b : Body α) :
    (b.map f).walkParts (fun _ ↦ false) = (b.walkParts fun _ ↦ false).map (Node.map f) := by
  have hvars : (b.vars.map f).walk (fun _ ↦ false) = (b.vars.walk fun _ ↦ false).map (Node.map f) :=
    Node.visit_map f (.vars b.vars) (flatMap_walk_map f (VarDecl.walk_map f) b.vars.decls)
  rw [Body.walkParts, Body.walkParts, List.map_append, ← hvars, ← b.block.walk_map]
  rfl

theorem Param.walk_map (ps : List (Param α)) :
    (ps.map (Param.map f)).flatMap (fun p ↦ Node.visit (fun _ ↦ false) (.param p) []) =
      (ps.flatMap fun p ↦ Node.visit (fun _ ↦ false) (.param p) []).map (Node.map f) := by
  apply flatMap_walk_map
  intro p
  rfl

theorem FuncDef.walk_map (g : FuncDef α) :
    (g.map f).walk (fun _ ↦ false) = (g.walk fun _ ↦ false).map (Node.map f) := by
  have hbody := Node.visit_map f (.body g.body) (g.body.walkParts_map f)
  apply Node.visit_map f (.func g)
  rw [List.map_append, ← Param.walk_map, ← hbody]
  rfl

theorem Script.walk_map (s : Script α) :
    (s.map f).walk (fun _ ↦ false) = (s.walk fun _ ↦ false).map (Node.map f) := by
  have hmain : (s.main.toList.map (Body.map f)).flatMap
        (fun b ↦ Node.visit (fun _ ↦ false) (.main b) (b.walkParts fun _ ↦ false)) =
      (s.main.toList.flatMap fun b ↦
        Node.visit (fun _ ↦ false) (.main b) (b.walkParts fun _ ↦ false)).map (Node.map f) := by
    apply flatMap_walk_map
    intro b
    exact Node.visit_map f (.main b) (b.walkParts_map f)
  apply Node.visit_map f (.script s)
  rw [List.map_append, ← flatMap_walk_map f (FuncDef.walk_map f), ← hmain, Script.map,
    Option.toList_map]

/-- The nodes of a tree whose notes are changed are the nodes before with their notes changed. -/
theorem Node.all_map (node : Node α) : (node.map f).all = node.all.map (Node.map f) := by
  cases node with
  | script s => exact s.walk_map f
  | func g => exact g.walk_map f
  | param p => rfl
  | main b => exact Node.visit_map f (.main b) (b.walkParts_map f)
  | body b => exact Node.visit_map f (.body b) (b.walkParts_map f)
  | vars v => exact Node.visit_map f (.vars v) (flatMap_walk_map f (VarDecl.walk_map f) v.decls)
  | block b => exact b.walk_map f
  | decl d => exact d.walk_map f
  | stmt s => exact s.walk_map f
  | expr e => exact e.walk_map f

end

section

variable {α β : Type} {f : α → β} {env : Env}

mutual

theorem HasType.map {e : Expr α} {type : Ty} : HasType env e type → HasType env (e.map f) type
  | .int => .int
  | .string => .string
  | .bool => .bool
  | .ident h => .ident h
  | .minus h => .minus h.map
  | .not h => .not h.map
  | .parens h => .parens h.map
  | .arithmetic hop hl hr => .arithmetic hop hl.map hr.map
  | .comparison hop hl hr => .comparison hop hl.map hr.map
  | .call h hargs => .call h hargs.map

theorem HaveTypes.map {es : List (Expr α)} {ps : List Prim} :
    HaveTypes env es ps → HaveTypes env (Expr.mapAll f es) ps
  | .nil => .nil
  | .cons h hs => .cons h.map hs.map

end

mutual

theorem HasType.of_map {e : Expr α} {type : Ty} (h : HasType env (e.map f) type) :
    HasType env e type := by
  match e, h with
  | .int .., .int => exact .int
  | .string .., .string => exact .string
  | .bool .., .bool => exact .bool
  | .ident .., .ident h => exact .ident h
  | .negate .., h =>
    cases h with
    | minus h => exact .minus h.of_map
    | not h => exact .not h.of_map
  | .parens .., .parens h => exact .parens h.of_map
  | .binary .., .arithmetic hop hl hr => exact .arithmetic hop hl.of_map hr.of_map
  | .binary .., .comparison hop hl hr => exact .comparison hop hl.of_map hr.of_map
  | .call .., .call h hargs => exact .call h hargs.of_map

theorem HaveTypes.of_map {es : List (Expr α)} {ps : List Prim}
    (h : HaveTypes env (Expr.mapAll f es) ps) : HaveTypes env es ps := by
  match es, h with
  | [], .nil => exact .nil
  | _ :: _, .cons h hs => exact .cons h.of_map hs.of_map

end

/-- Expressions of one shape have the same types. -/
theorem HasType.of_map_eq {γ : Type} {g : γ → β} {e : Expr α} {e' : Expr γ} {type : Ty}
    (h : HasType env e type) (heq : e.map f = e'.map g) : HasType env e' type := by
  apply HasType.of_map (f := g)
  rw [← heq]
  exact h.map

/-! ## Well-formed programs -/

mutual

theorem Stmt.WellTyped.map {returns : Prim} {s : Stmt α} :
    s.WellTyped env returns → (s.map f).WellTyped env returns
  | .assign h hv => .assign h hv.map
  | .loop hc hb => .loop hc.map hb.map
  | .branch hc ht => .branch hc.map ht.map
  | .branchElse hc ht hf => .branchElse hc.map ht.map hf.map
  | .print hv => .print hv.map
  | .ret h => .ret h
  | .retValue h hv => .retValue h hv.map
  | .call h => .call h.map

theorem Block.WellTyped.map {returns : Prim} {b : Block α} :
    b.WellTyped env returns → (b.map f).WellTyped env returns
  | .mk h => .mk h.map

theorem Stmt.AllWellTyped.map {returns : Prim} {stmts : List (Stmt α)} :
    Stmt.AllWellTyped env returns stmts → Stmt.AllWellTyped env returns (Stmt.mapAll f stmts)
  | .nil => .nil
  | .cons h hs => .cons h.map hs.map

end

mutual

theorem Stmt.WellTyped.of_map {returns : Prim} {s : Stmt α}
    (h : (s.map f).WellTyped env returns) : s.WellTyped env returns := by
  match s, h with
  | .assign .., .assign h hv => exact .assign h hv.of_map
  | .loop .., .loop hc hb => exact .loop hc.of_map hb.of_map
  | .branch _ _ _ none, .branch hc ht => exact .branch hc.of_map ht.of_map
  | .branch _ _ _ (some _), .branchElse hc ht hf =>
    exact .branchElse hc.of_map ht.of_map hf.of_map
  | .print .., .print hv => exact .print hv.of_map
  | .ret _ none, .ret h => exact .ret h
  | .ret _ (some _), .retValue h hv => exact .retValue h hv.of_map
  | .call _ callNote callee args, .call h =>
    have hcall : HasType env ((Expr.call callNote callee args).map f) _ := h
    exact .call hcall.of_map

theorem Block.WellTyped.of_map {returns : Prim} {b : Block α}
    (h : (b.map f).WellTyped env returns) : b.WellTyped env returns := by
  match b, h with
  | .mk .., .mk h => exact .mk h.of_map

theorem Stmt.AllWellTyped.of_map {returns : Prim} {stmts : List (Stmt α)}
    (h : Stmt.AllWellTyped env returns (Stmt.mapAll f stmts)) :
    Stmt.AllWellTyped env returns stmts := by
  match stmts, h with
  | [], .nil => exact .nil
  | _ :: _, .cons h hs => exact .cons h.of_map hs.of_map

end

theorem declares_map {Γ Γ' : Context} {ds : List (VarDecl α)} :
    Declares Γ (ds.map (VarDecl.map f)) Γ' ↔ Declares Γ ds Γ' := by
  induction ds generalizing Γ with
  | nil =>
    constructor
    · rintro ⟨⟩
      exact .nil
    · rintro ⟨⟩
      exact .nil
  | cons d ds ih =>
    rw [List.map_cons]
    constructor
    · intro h
      cases h with
      | cons hname htype hinit hs =>
        refine .cons hname htype ?_ (ih.1 hs)
        intro e he
        exact (hinit _ (Option.mem_map_of_mem (Expr.map f) he)).of_map
    · intro h
      cases h with
      | cons hname htype hinit hs =>
        refine .cons hname htype ?_ (ih.2 hs)
        intro e' he'
        obtain ⟨e, he, rfl⟩ := Option.map_eq_some_iff.1 he'
        exact (hinit e he).map

theorem Body.wellTyped_map {Γ : Context} {returns : Prim} (b : Body α) :
    (b.map f).WellTyped Γ returns ↔ b.WellTyped Γ returns := by
  constructor
  · rintro ⟨Γ', hdeclares, hblock⟩
    exact ⟨Γ', declares_map.1 hdeclares, hblock.of_map⟩
  · rintro ⟨Γ', hdeclares, hblock⟩
    exact ⟨Γ', declares_map.2 hdeclares, hblock.map⟩

theorem Param.map_name_map (ps : List (Param α)) :
    (ps.map (Param.map f)).map Param.name = ps.map Param.name := by
  rw [List.map_map]
  rfl

theorem FuncDef.map_name_map (fs : List (FuncDef α)) :
    (fs.map (FuncDef.map f)).map FuncDef.name = fs.map FuncDef.name := by
  rw [List.map_map]
  rfl

theorem FuncDef.writtenSignature?_map (g : FuncDef α) :
    (g.map f).writtenSignature? = g.writtenSignature? := by
  unfold FuncDef.writtenSignature? FuncDef.map
  simp only [List.mapM_map]
  rfl

theorem FuncDef.wellTyped_map {functions : List (String × Signature)} (g : FuncDef α) :
    (g.map f).WellTyped functions ↔ g.WellTyped functions := by
  unfold FuncDef.WellTyped
  rw [g.writtenSignature?_map]
  simp only [FuncDef.map, Param.map_name_map, Body.wellTyped_map]

/-- Whether a program is well formed does not depend on its notes. -/
theorem Script.wellFormed_map (s : Script α) : (s.map f).WellFormed ↔ s.WellFormed := by
  have hsignatures : (s.funcs.map (FuncDef.map f)).mapM FuncDef.writtenSignature? =
      s.funcs.mapM FuncDef.writtenSignature? := by
    rw [List.mapM_map]
    exact congrArg s.funcs.mapM (funext FuncDef.writtenSignature?_map)
  have hmain (Γ : Context) : (∀ main ∈ s.main.map (Body.map f), main.WellTyped Γ .void) ↔
      ∀ main ∈ s.main, main.WellTyped Γ .void := by
    cases s.main with
    | none => simp
    | some main => simp [Body.wellTyped_map]
  unfold Script.WellFormed Script.map
  simp only [FuncDef.map_name_map, hsignatures, List.forall_mem_map, FuncDef.wellTyped_map, hmain]

end

/-! ## Numbering -/

mutual

theorem Expr.map_number (last : Nat) (e : Expr Extent) : (e.number last).1.map Tag.extent = e := by
  match e with
  | .int .. | .string .. | .bool .. | .ident .. => rfl
  | .negate note op operand => exact congrArg (Expr.negate note op) (operand.map_number last)
  | .parens note inner => exact congrArg (Expr.parens note) (inner.map_number last)
  | .binary note op left right =>
    rw [Expr.number, Expr.map, left.map_number last, right.map_number]
  | .call note callee args =>
    exact congrArg (Expr.call note callee) (Expr.mapAll_numberAll last args)

theorem Expr.mapAll_numberAll (last : Nat) (es : List (Expr Extent)) :
    Expr.mapAll Tag.extent (Expr.numberAll last es).1 = es := by
  match es with
  | [] => rfl
  | e :: es => rw [Expr.numberAll, Expr.mapAll, e.map_number last, Expr.mapAll_numberAll]

end

theorem Expr.map_text_extent (e : Expr Tag) :
    (e.map Tag.extent).map Extent.text = e.map Tag.text := Expr.map_map _ _ _

theorem Expr.map_text_number (last : Nat) (e : Expr Extent) :
    (e.number last).1.map Tag.text = e.map Extent.text := by
  rw [← Expr.map_text_extent, Expr.map_number]

mutual

theorem Stmt.map_number (last : Nat) (s : Stmt Extent) : (s.number last).1.map Tag.extent = s := by
  match s with
  | .assign note target value => exact congrArg (Stmt.assign note target) (value.map_number last)
  | .loop note condition body =>
    rw [Stmt.number, Stmt.map, condition.map_number last, body.map_number]
  | .branch note condition whenTrue none =>
    simp only [Stmt.number, Block.numberOption, Stmt.map, condition.map_number, whenTrue.map_number]
  | .branch note condition whenTrue (some whenFalse) =>
    simp only [Stmt.number, Block.numberOption, Stmt.map, condition.map_number, whenTrue.map_number,
      whenFalse.map_number]
  | .print note value => exact congrArg (Stmt.print note) (value.map_number last)
  | .ret note none => rfl
  | .ret note (some value) =>
    exact congrArg (Stmt.ret note <| some ·) (value.map_number last)
  | .call note callNote callee args =>
    exact congrArg (Stmt.call note callNote callee) (Expr.mapAll_numberAll last args)

theorem Block.map_number (last : Nat) (b : Block Extent) :
    (b.number last).1.map Tag.extent = b := by
  match b with
  | .mk note stmts => exact congrArg (Block.mk note) (Stmt.mapAll_numberAll last stmts)

theorem Stmt.mapAll_numberAll (last : Nat) (stmts : List (Stmt Extent)) :
    Stmt.mapAll Tag.extent (Stmt.numberAll last stmts).1 = stmts := by
  match stmts with
  | [] => rfl
  | s :: stmts => rw [Stmt.numberAll, Stmt.mapAll, s.map_number last, Stmt.mapAll_numberAll]

end

theorem Param.map_numberAll (last : Nat) (ps : List (Param Extent)) :
    (Param.numberAll last ps).1.map (Param.map Tag.extent) = ps := by
  induction ps generalizing last with
  | nil => rfl
  | cons p ps ih => exact congrArg (p :: ·) (ih (last + 1))

theorem VarDecl.map_number (last : Nat) (d : VarDecl Extent) :
    (d.number last).1.map Tag.extent = d := by
  cases hinit : d.init with
  | none => rw [VarDecl.number, hinit, Expr.numberOption, VarDecl.map, Option.map_none, ← hinit]
  | some e =>
    rw [VarDecl.number, hinit, Expr.numberOption, VarDecl.map, Option.map_some, e.map_number,
      ← hinit]

theorem VarDecl.map_numberAll (last : Nat) (ds : List (VarDecl Extent)) :
    (VarDecl.numberAll last ds).1.map (VarDecl.map Tag.extent) = ds := by
  induction ds generalizing last with
  | nil => rfl
  | cons d ds ih => rw [VarDecl.numberAll, List.map_cons, d.map_number, ih]

theorem Body.map_number (last : Nat) (b : Body Extent) : (b.number last).1.map Tag.extent = b := by
  have hvars (last : Nat) : (b.vars.number last).1.map Tag.extent = b.vars := by
    rw [VarBlock.number, VarBlock.map, VarDecl.map_numberAll]
  have hblock (last : Nat) : (b.block.numberPlain last).1.map Tag.extent = b.block := by
    cases hb : b.block with
    | mk note stmts => exact congrArg (Block.mk note) (Stmt.mapAll_numberAll last stmts)
  rw [Body.number, Body.map, hvars, hblock]

theorem FuncDef.map_number (last : Nat) (g : FuncDef Extent) :
    (g.number last).1.map Tag.extent = g := by
  rw [FuncDef.number, FuncDef.map, Param.map_numberAll, Body.map_number]

theorem FuncDef.map_numberAll (last : Nat) (fs : List (FuncDef Extent)) :
    (FuncDef.numberAll last fs).1.map (FuncDef.map Tag.extent) = fs := by
  induction fs generalizing last with
  | nil => rfl
  | cons g fs ih => rw [FuncDef.numberAll, List.map_cons, g.map_number, ih]

theorem Script.map_number (s : Script Extent) : s.number.map Tag.extent = s := by
  obtain ⟨note, funcs, main⟩ := s
  cases main with
  | none => exact congrArg (Script.mk note · none) (FuncDef.map_numberAll 0 funcs)
  | some b =>
    have hmain := b.map_number (FuncDef.numberAll 0 funcs).2
    calc
      _ = Script.mk note ((FuncDef.numberAll 0 funcs).1.map (FuncDef.map Tag.extent))
          (some ((b.number (FuncDef.numberAll 0 funcs).2).1.map Tag.extent)) := rfl
      _ = _ := by rw [FuncDef.map_numberAll, hmain]

end ScriptAnalysis
