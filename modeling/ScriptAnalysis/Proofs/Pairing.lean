import ScriptAnalysis.Proofs.Shape

/-!
# Trees of pairs

Two trees that become equal when their notes are replaced are the two sides of one tree whose notes
are pairs. Whatever is to be compared between the two can then be followed along one tree.
-/

namespace ScriptAnalysis

variable {α β γ : Type}

/-- Whether the two notes of every node are related. -/
def Linked (R : α → β → Prop) (nodes : List (Node (α × β))) : Prop :=
  ∀ node ∈ nodes, R node.note.1 node.note.2

section

variable {R S : α → β → Prop} {node : Node (α × β)} {nodes others : List (Node (α × β))}

theorem linked_nil : Linked R [] := List.forall_mem_nil _

theorem linked_append : Linked R (nodes ++ others) ↔ Linked R nodes ∧ Linked R others :=
  List.forall_mem_append

theorem linked_visit : Linked R (Node.visit (fun _ ↦ false) node nodes) ↔
    R node.note.1 node.note.2 ∧ Linked R nodes := List.forall_mem_cons

theorem linked_flatMap {δ : Type} {xs : List δ} {walk : δ → List (Node (α × β))} :
    Linked R (xs.flatMap walk) ↔ ∀ x ∈ xs, Linked R (walk x) := List.forall_mem_flatMap

theorem Linked.mono (h : Linked R nodes) (hS : ∀ a b, R a b → S a b) : Linked S nodes :=
  fun node hnode ↦ hS _ _ (h node hnode)

end

section

variable {f : α → γ} {g : β → γ}

mutual

theorem Expr.exists_pairs (e : Expr α) (e' : Expr β) (h : e.map f = e'.map g) :
    ∃ p : Expr (α × β), p.map Prod.fst = e ∧ p.map Prod.snd = e' ∧
      Linked (fun a b ↦ f a = g b) (p.walk fun _ ↦ false) := by
  match e, e', h with
  | .int note digits, .int note' digits', h =>
    obtain ⟨hnote, rfl⟩ := Expr.int.inj h
    exact ⟨.int (note, note') digits, rfl, rfl, linked_visit.2 ⟨hnote, linked_nil⟩⟩
  | .string note lexeme, .string note' lexeme', h =>
    obtain ⟨hnote, rfl⟩ := Expr.string.inj h
    exact ⟨.string (note, note') lexeme, rfl, rfl, linked_visit.2 ⟨hnote, linked_nil⟩⟩
  | .bool note value, .bool note' value', h =>
    obtain ⟨hnote, rfl⟩ := Expr.bool.inj h
    exact ⟨.bool (note, note') value, rfl, rfl, linked_visit.2 ⟨hnote, linked_nil⟩⟩
  | .ident note name, .ident note' name', h =>
    obtain ⟨hnote, rfl⟩ := Expr.ident.inj h
    exact ⟨.ident (note, note') name, rfl, rfl, linked_visit.2 ⟨hnote, linked_nil⟩⟩
  | .negate note op operand, .negate note' op' operand', h =>
    obtain ⟨hnote, rfl, hoperand⟩ := Expr.negate.inj h
    obtain ⟨p, rfl, rfl, hp⟩ := Expr.exists_pairs operand operand' hoperand
    exact ⟨.negate (note, note') op p, rfl, rfl, linked_visit.2 ⟨hnote, hp⟩⟩
  | .parens note inner, .parens note' inner', h =>
    obtain ⟨hnote, hinner⟩ := Expr.parens.inj h
    obtain ⟨p, rfl, rfl, hp⟩ := Expr.exists_pairs inner inner' hinner
    exact ⟨.parens (note, note') p, rfl, rfl, linked_visit.2 ⟨hnote, hp⟩⟩
  | .binary note op left right, .binary note' op' left' right', h =>
    obtain ⟨hnote, rfl, hleft, hright⟩ := Expr.binary.inj h
    obtain ⟨p, rfl, rfl, hp⟩ := Expr.exists_pairs left left' hleft
    obtain ⟨q, rfl, rfl, hq⟩ := Expr.exists_pairs right right' hright
    exact ⟨.binary (note, note') op p q, rfl, rfl,
      linked_visit.2 ⟨hnote, linked_append.2 ⟨hp, hq⟩⟩⟩
  | .call note callee args, .call note' callee' args', h =>
    obtain ⟨hnote, rfl, hargs⟩ := Expr.call.inj h
    obtain ⟨ps, rfl, rfl, hps⟩ := Expr.exists_pairsAll args args' hargs
    exact ⟨.call (note, note') callee ps, rfl, rfl, linked_visit.2 ⟨hnote, hps⟩⟩

theorem Expr.exists_pairsAll (es : List (Expr α)) (es' : List (Expr β))
    (h : Expr.mapAll f es = Expr.mapAll g es') :
    ∃ ps : List (Expr (α × β)), Expr.mapAll Prod.fst ps = es ∧ Expr.mapAll Prod.snd ps = es' ∧
      Linked (fun a b ↦ f a = g b) (Expr.walkAll (fun _ ↦ false) ps) := by
  match es, es', h with
  | [], [], _ => exact ⟨[], rfl, rfl, linked_nil⟩
  | e :: es, e' :: es', h =>
    obtain ⟨hfirst, hothers⟩ := List.cons.inj h
    obtain ⟨p, rfl, rfl, hp⟩ := Expr.exists_pairs e e' hfirst
    obtain ⟨ps, rfl, rfl, hps⟩ := Expr.exists_pairsAll es es' hothers
    exact ⟨p :: ps, rfl, rfl, linked_append.2 ⟨hp, hps⟩⟩

end

mutual

theorem Stmt.exists_pairs (s : Stmt α) (s' : Stmt β) (h : s.map f = s'.map g) :
    ∃ p : Stmt (α × β), p.map Prod.fst = s ∧ p.map Prod.snd = s' ∧
      Linked (fun a b ↦ f a = g b) (p.walk fun _ ↦ false) := by
  match s, s', h with
  | .assign note target value, .assign note' target' value', h =>
    obtain ⟨hnote, rfl, hvalue⟩ := Stmt.assign.inj h
    obtain ⟨p, rfl, rfl, hp⟩ := Expr.exists_pairs value value' hvalue
    exact ⟨.assign (note, note') target p, rfl, rfl, linked_visit.2 ⟨hnote, hp⟩⟩
  | .loop note condition body, .loop note' condition' body', h =>
    obtain ⟨hnote, hcondition, hbody⟩ := Stmt.loop.inj h
    obtain ⟨p, rfl, rfl, hp⟩ := Expr.exists_pairs condition condition' hcondition
    obtain ⟨q, rfl, rfl, hq⟩ := Block.exists_pairs body body' hbody
    exact ⟨.loop (note, note') p q, rfl, rfl, linked_visit.2 ⟨hnote, linked_append.2 ⟨hp, hq⟩⟩⟩
  | .branch note condition whenTrue none, .branch note' condition' whenTrue' none, h =>
    obtain ⟨hnote, hcondition, htrue, -⟩ := Stmt.branch.inj h
    obtain ⟨p, rfl, rfl, hp⟩ := Expr.exists_pairs condition condition' hcondition
    obtain ⟨q, rfl, rfl, hq⟩ := Block.exists_pairs whenTrue whenTrue' htrue
    exact ⟨.branch (note, note') p q none, rfl, rfl,
      linked_visit.2 ⟨hnote, linked_append.2 ⟨hp, hq⟩⟩⟩
  | .branch note condition whenTrue (some whenFalse),
      .branch note' condition' whenTrue' (some whenFalse'), h =>
    obtain ⟨hnote, hcondition, htrue, hfalse⟩ := Stmt.branch.inj h
    obtain ⟨p, rfl, rfl, hp⟩ := Expr.exists_pairs condition condition' hcondition
    obtain ⟨q, rfl, rfl, hq⟩ := Block.exists_pairs whenTrue whenTrue' htrue
    obtain ⟨r, rfl, rfl, hr⟩ := Block.exists_pairs whenFalse whenFalse' (Option.some.inj hfalse)
    exact ⟨.branch (note, note') p q (some r), rfl, rfl,
      linked_visit.2 ⟨hnote, linked_append.2 ⟨linked_append.2 ⟨hp, hq⟩, hr⟩⟩⟩
  | .branch _ _ _ none, .branch _ _ _ (some _), h | .branch _ _ _ (some _), .branch _ _ _ none, h =>
    simp [Stmt.map] at h
  | .print note value, .print note' value', h =>
    obtain ⟨hnote, hvalue⟩ := Stmt.print.inj h
    obtain ⟨p, rfl, rfl, hp⟩ := Expr.exists_pairs value value' hvalue
    exact ⟨.print (note, note') p, rfl, rfl, linked_visit.2 ⟨hnote, hp⟩⟩
  | .ret note none, .ret note' none, h =>
    obtain ⟨hnote, -⟩ := Stmt.ret.inj h
    exact ⟨.ret (note, note') none, rfl, rfl, linked_visit.2 ⟨hnote, linked_nil⟩⟩
  | .ret note (some value), .ret note' (some value'), h =>
    obtain ⟨hnote, hvalue⟩ := Stmt.ret.inj h
    obtain ⟨p, rfl, rfl, hp⟩ := Expr.exists_pairs value value' (Option.some.inj hvalue)
    exact ⟨.ret (note, note') (some p), rfl, rfl, linked_visit.2 ⟨hnote, hp⟩⟩
  | .ret _ none, .ret _ (some _), h | .ret _ (some _), .ret _ none, h => simp [Stmt.map] at h
  | .call note callNote callee args, .call note' callNote' callee' args', h =>
    obtain ⟨hnote, hcall, rfl, hargs⟩ := Stmt.call.inj h
    obtain ⟨ps, rfl, rfl, hps⟩ := Expr.exists_pairsAll args args' hargs
    exact ⟨.call (note, note') (callNote, callNote') callee ps, rfl, rfl,
      linked_visit.2 ⟨hnote, linked_visit.2 ⟨hcall, hps⟩⟩⟩

theorem Block.exists_pairs (b : Block α) (b' : Block β) (h : b.map f = b'.map g) :
    ∃ p : Block (α × β), p.map Prod.fst = b ∧ p.map Prod.snd = b' ∧
      Linked (fun a b ↦ f a = g b) (p.walk fun _ ↦ false) := by
  match b, b' with
  | .mk note stmts, .mk note' stmts' =>
    obtain ⟨hnote, hstmts⟩ := Block.mk.inj h
    obtain ⟨ps, rfl, rfl, hps⟩ := Stmt.exists_pairsAll stmts stmts' hstmts
    exact ⟨.mk (note, note') ps, rfl, rfl, linked_visit.2 ⟨hnote, hps⟩⟩

theorem Stmt.exists_pairsAll (stmts : List (Stmt α)) (stmts' : List (Stmt β))
    (h : Stmt.mapAll f stmts = Stmt.mapAll g stmts') :
    ∃ ps : List (Stmt (α × β)), Stmt.mapAll Prod.fst ps = stmts ∧ Stmt.mapAll Prod.snd ps = stmts' ∧
      Linked (fun a b ↦ f a = g b) (Stmt.walkAll (fun _ ↦ false) ps) := by
  match stmts, stmts', h with
  | [], [], _ => exact ⟨[], rfl, rfl, linked_nil⟩
  | s :: stmts, s' :: stmts', h =>
    obtain ⟨hfirst, hothers⟩ := List.cons.inj h
    obtain ⟨p, rfl, rfl, hp⟩ := Stmt.exists_pairs s s' hfirst
    obtain ⟨ps, rfl, rfl, hps⟩ := Stmt.exists_pairsAll stmts stmts' hothers
    exact ⟨p :: ps, rfl, rfl, linked_append.2 ⟨hp, hps⟩⟩

end

/-- Lists whose members are the two sides of pairs are the two sides of a list of pairs. -/
theorem exists_pairs_of_map_eq {δ ε ζ η : Type} {F : δ → η} {G : ε → η} {fst : ζ → δ} {snd : ζ → ε}
    {P : ζ → Prop} (hpair : ∀ x y, F x = G y → ∃ p, fst p = x ∧ snd p = y ∧ P p)
    {xs : List δ} {ys : List ε} (h : xs.map F = ys.map G) :
    ∃ ps : List ζ, ps.map fst = xs ∧ ps.map snd = ys ∧ ∀ p ∈ ps, P p := by
  induction xs generalizing ys with
  | nil =>
    rw [List.map_nil, eq_comm, List.map_eq_nil_iff] at h
    exact ⟨[], rfl, h.symm, List.forall_mem_nil _⟩
  | cons x xs ih =>
    cases ys with
    | nil => cases h
    | cons y ys =>
      obtain ⟨hfirst, hothers⟩ := List.cons.inj h
      obtain ⟨p, rfl, rfl, hp⟩ := hpair x y hfirst
      obtain ⟨ps, rfl, rfl, hps⟩ := ih hothers
      exact ⟨p :: ps, rfl, rfl, List.forall_mem_cons.2 ⟨hp, hps⟩⟩

theorem Param.exists_pairs (q : Param α) (q' : Param β) (h : q.map f = q'.map g) :
    ∃ p : Param (α × β), p.map Prod.fst = q ∧ p.map Prod.snd = q' ∧ f p.note.1 = g p.note.2 := by
  obtain ⟨note, name, type⟩ := q
  obtain ⟨note', name', type'⟩ := q'
  obtain ⟨hnote, rfl, rfl⟩ := Param.mk.inj h
  exact ⟨⟨(note, note'), name, type⟩, rfl, rfl, hnote⟩

theorem VarDecl.exists_pairs (d : VarDecl α) (d' : VarDecl β) (h : d.map f = d'.map g) :
    ∃ p : VarDecl (α × β), p.map Prod.fst = d ∧ p.map Prod.snd = d' ∧
      Linked (fun a b ↦ f a = g b) (p.walk fun _ ↦ false) := by
  obtain ⟨note, name, type, init⟩ := d
  obtain ⟨note', name', type', init'⟩ := d'
  obtain ⟨hnote, rfl, rfl, hinit⟩ := VarDecl.mk.inj h
  match init, init', hinit with
  | none, none, _ =>
    exact ⟨⟨(note, note'), name, type, none⟩, rfl, rfl, linked_visit.2 ⟨hnote, linked_nil⟩⟩
  | some e, some e', hinit =>
    obtain ⟨p, rfl, rfl, hp⟩ := Expr.exists_pairs e e' (Option.some.inj hinit)
    refine ⟨⟨(note, note'), name, type, some p⟩, rfl, rfl, linked_visit.2 ⟨hnote, ?_⟩⟩
    simpa [linked_flatMap] using hp

theorem VarBlock.exists_pairs (v : VarBlock α) (v' : VarBlock β) (h : v.map f = v'.map g) :
    ∃ p : VarBlock (α × β), p.map Prod.fst = v ∧ p.map Prod.snd = v' ∧
      Linked (fun a b ↦ f a = g b) (p.walk fun _ ↦ false) := by
  obtain ⟨note, decls⟩ := v
  obtain ⟨note', decls'⟩ := v'
  obtain ⟨hnote, hdecls⟩ := VarBlock.mk.inj h
  obtain ⟨ps, rfl, rfl, hps⟩ := exists_pairs_of_map_eq VarDecl.exists_pairs hdecls
  exact ⟨⟨(note, note'), ps⟩, rfl, rfl, linked_visit.2 ⟨hnote, linked_flatMap.2 hps⟩⟩

theorem Body.exists_pairs (b : Body α) (b' : Body β) (h : b.map f = b'.map g) :
    ∃ p : Body (α × β), p.map Prod.fst = b ∧ p.map Prod.snd = b' ∧ f p.note.1 = g p.note.2 ∧
      Linked (fun a b ↦ f a = g b) (p.walkParts fun _ ↦ false) := by
  obtain ⟨note, vars, block⟩ := b
  obtain ⟨note', vars', block'⟩ := b'
  obtain ⟨hnote, hvars, hblock⟩ := Body.mk.inj h
  obtain ⟨p, rfl, rfl, hp⟩ := VarBlock.exists_pairs vars vars' hvars
  obtain ⟨q, rfl, rfl, hq⟩ := Block.exists_pairs block block' hblock
  exact ⟨⟨(note, note'), p, q⟩, rfl, rfl, hnote, linked_append.2 ⟨hp, hq⟩⟩

theorem FuncDef.exists_pairs (d : FuncDef α) (d' : FuncDef β) (h : d.map f = d'.map g) :
    ∃ p : FuncDef (α × β), p.map Prod.fst = d ∧ p.map Prod.snd = d' ∧
      Linked (fun a b ↦ f a = g b) (p.walk fun _ ↦ false) := by
  obtain ⟨note, name, params, returns, body⟩ := d
  obtain ⟨note', name', params', returns', body'⟩ := d'
  obtain ⟨hnote, rfl, hparams, rfl, hbody⟩ := FuncDef.mk.inj h
  obtain ⟨ps, rfl, rfl, hps⟩ := exists_pairs_of_map_eq Param.exists_pairs hparams
  obtain ⟨q, rfl, rfl, hq, hparts⟩ := Body.exists_pairs body body' hbody
  refine ⟨⟨(note, note'), name, ps, returns, q⟩, rfl, rfl,
    linked_visit.2 ⟨hnote, linked_append.2 ⟨linked_flatMap.2 ?_, linked_visit.2 ⟨hq, hparts⟩⟩⟩⟩
  exact fun p hp ↦ linked_visit.2 ⟨hps p hp, linked_nil⟩

theorem Script.exists_pairs (s : Script α) (s' : Script β) (h : s.map f = s'.map g) :
    ∃ p : Script (α × β), p.map Prod.fst = s ∧ p.map Prod.snd = s' ∧
      Linked (fun a b ↦ f a = g b) (p.walk fun _ ↦ false) := by
  obtain ⟨note, funcs, main⟩ := s
  obtain ⟨note', funcs', main'⟩ := s'
  obtain ⟨hnote, hfuncs, hmain⟩ := Script.mk.inj h
  obtain ⟨ps, rfl, rfl, hps⟩ := exists_pairs_of_map_eq FuncDef.exists_pairs hfuncs
  match main, main', hmain with
  | none, none, _ =>
    exact ⟨⟨(note, note'), ps, none⟩, rfl, rfl,
      linked_visit.2 ⟨hnote, linked_append.2 ⟨linked_flatMap.2 hps, linked_nil⟩⟩⟩
  | some b, some b', hmain =>
    obtain ⟨q, rfl, rfl, hq, hparts⟩ := Body.exists_pairs b b' (Option.some.inj hmain)
    refine ⟨⟨(note, note'), ps, some q⟩, rfl, rfl,
      linked_visit.2 ⟨hnote, linked_append.2 ⟨linked_flatMap.2 hps, ?_⟩⟩⟩
    simpa [linked_flatMap, linked_visit] using ⟨hq, hparts⟩

end

end ScriptAnalysis
