import ScriptAnalysis.Proofs.Recognition
import ScriptAnalysis.Proofs.Segments
import ScriptAnalysis.Proofs.Shape

/-!
# Where nodes begin

The tokens of a source stand one behind the other, so each begins at a place of its own. A node
begins where one of its tokens does, or, if it has none, where the next token does, which lies in
the same body. So the nodes of one definition lie apart from those of the others and of the main
part.
-/

namespace ScriptAnalysis

/-- Whether a token begins before another one. -/
def Token.Before (t u : Token) : Prop := t.line < u.line ∨ t.line = u.line ∧ t.col < u.col

theorem Token.Before.startPlace_ne {t u : Token} (h : t.Before u) :
    t.startPlace ≠ u.startPlace := by
  intro heq
  simp only [Token.startPlace, Place.mk.injEq, Int.natCast_inj] at heq
  unfold Token.Before at h
  omega

namespace Lexer

/-- Reading characters leads to a later line, or as many columns on. -/
theorem advance_cases (here : Nat × Nat) (cs : List Char) :
    here.1 < (advance here cs).1 ∨
      here.1 = (advance here cs).1 ∧ here.2 + cs.length = (advance here cs).2 := by
  induction cs generalizing here with
  | nil => exact .inr ⟨rfl, rfl⟩
  | cons c cs ih =>
    rw [advance]
    split
    · have hlater := ih (here.1 + 1, 1)
      simp only at hlater
      omega
    · have hlater := ih (here.1, here.2 + 1)
      simp only [List.length_cons] at hlater ⊢
      omega

/-- The tokens of a text and the mark behind it stand in order, none before the text. -/
theorem pairwise_scan (here : Nat × Nat) (text : List Char) {stop : Token}
    (hline : stop.line = (advance here text).1) (hcol : stop.col = (advance here text).2) :
    (scan here text ++ [stop]).Pairwise Token.Before ∧
      ∀ t ∈ scan here text ++ [stop], here.1 < t.line ∨ here.1 = t.line ∧ here.2 ≤ t.col := by
  match text with
  | [] =>
    rw [scan, List.nil_append]
    refine ⟨List.pairwise_singleton _ _, List.forall_mem_singleton.2 (.inr ⟨hline.symm, ?_⟩)⟩
    exact Nat.le_of_eq hcol.symm
  | c :: rest =>
    let lexeme := c :: rest.take (piece c rest).2
    have hmoved := advance_cases here lexeme
    have hlength : 0 < lexeme.length := Nat.succ_pos _
    rw [← advance_piece] at hline hcol
    obtain ⟨hordered, hfrom⟩ := pairwise_scan (advance here lexeme) (rest.drop (piece c rest).2)
      hline hcol
    have hlater : ∀ t ∈ scan (advance here lexeme) (rest.drop (piece c rest).2) ++ [stop],
        here.1 < t.line ∨ here.1 = t.line ∧ here.2 < t.col := by
      intro t ht
      have hplace := hfrom t ht
      omega
    have hnotBefore : ∀ t ∈ scan (advance here lexeme) (rest.drop (piece c rest).2) ++ [stop],
        here.1 < t.line ∨ here.1 = t.line ∧ here.2 ≤ t.col := by
      intro t ht
      have hplace := hlater t ht
      omega
    cases hkind : (piece c rest).1 with
    | none =>
      rw [scan_of_trivia hkind]
      exact ⟨hordered, hnotBefore⟩
    | some kind =>
      rw [scan_of_kind hkind, List.cons_append]
      refine ⟨List.pairwise_cons.2 ⟨hlater, hordered⟩, List.forall_mem_cons.2 ⟨?_, hnotBefore⟩⟩
      exact .inr ⟨rfl, Nat.le_refl _⟩
termination_by text.length
decreasing_by
  simp only [List.length_drop, List.length_cons]
  omega

/-- The tokens of a source begin at different places. -/
theorem nodup_startPlaces (source : String) :
    ((allTokens source).map Token.startPlace).Nodup := by
  have hordered : (allTokens source).Pairwise Token.Before :=
    (pairwise_scan (1, 1) source.toList rfl rfl).1
  exact List.pairwise_map.2 (hordered.imp Token.Before.startPlace_ne)

end Lexer

namespace Grammar

/-- Whether nodes each begin where one of some tokens does. -/
def Begin (ts : List Token) (nodes : List (Node Extent)) : Prop :=
  ∀ node ∈ nodes, node.note.span.start ∈ ts.map Token.startPlace

variable {ts us : List Token} {t : Token} {nodes nodes' : List (Node Extent)}

namespace Begin

theorem nil (ts : List Token) : Begin ts [] := by
  simp [Begin]

theorem mono (h : Begin us nodes) (hsub : us ⊆ ts) : Begin ts nodes :=
  fun node hnode ↦ List.map_subset _ hsub (h node hnode)

theorem left (h : Begin ts nodes) (us : List Token) : Begin (ts ++ us) nodes :=
  h.mono (List.subset_append_left ts us)

theorem right (h : Begin us nodes) (ts : List Token) : Begin (ts ++ us) nodes :=
  h.mono (List.subset_append_right ts us)

theorem tail (h : Begin ts nodes) (t : Token) : Begin (t :: ts) nodes :=
  h.right [t]

theorem append (h : Begin ts nodes) (h' : Begin ts nodes') : Begin ts (nodes ++ nodes') :=
  List.forall_mem_append.2 ⟨h, h'⟩

theorem visit {node : Node Extent} (hts : ts ≠ []) (hnode : node.note = .spanning ts hts)
    (h : Begin ts nodes) : Begin ts (Node.visit (fun _ ↦ false) node nodes) := by
  refine List.forall_mem_cons.2 ⟨?_, h⟩
  rw [hnode]
  exact List.mem_map_of_mem (List.head_mem hts)

/-- A node that may have no tokens begins with one of its own or with the next. -/
theorem visit_ofTokens {node : Node Extent} {next : Token} (hnode : node.note = .ofTokens next us)
    (hus : us ⊆ ts) (hnext : next ∈ ts) (h : Begin ts nodes) :
    Begin ts (Node.visit (fun _ ↦ false) node nodes) := by
  refine List.forall_mem_cons.2 ⟨?_, h⟩
  rw [hnode]
  cases us with
  | nil => exact List.mem_map_of_mem hnext
  | cons first more => exact List.mem_map_of_mem (hus List.mem_cons_self)

end Begin

mutual

theorem Expression.begin {level : Nat} {ts : List Token} {e : Expr Extent} :
    Expression level ts e → Begin ts (e.walk fun _ ↦ false)
  | .unary h => h.begin
  | .operand h => h.begin
  | .operation hl _ _ hr =>
    .visit _ rfl ((hl.begin.left _).append ((hr.begin.tail _).right _))

theorem Unary.begin {ts : List Token} {e : Expr Extent} :
    Unary ts e → Begin ts (e.walk fun _ ↦ false)
  | .negate _ h => .visit _ rfl (h.begin.tail _)
  | .primary h => h.begin

theorem Primary.begin {ts : List Token} {e : Expr Extent} :
    Primary ts e → Begin ts (e.walk fun _ ↦ false)
  | .int _ | .string _ | .true _ | .false _ | .ident _ => .visit _ rfl (.nil _)
  | .call h => h.begin
  | .parens _ h _ => .visit _ rfl ((h.begin.left _).tail _)

theorem Call.begin {ts : List Token} {note : Extent} {callee : String} {args : List (Expr Extent)} :
    Call ts note callee args → Begin ts ((Expr.call note callee args).walk fun _ ↦ false)
  | .mk _ _ h => .visit _ rfl ((h.begin.tail _).tail _)

theorem Arguments.begin {ts : List Token} {args : List (Expr Extent)} :
    Arguments ts args → Begin ts (Expr.walkAll (fun _ ↦ false) args)
  | .none _ => .nil _
  | .some h => h.begin

theorem ArgumentList.begin {ts : List Token} {args : List (Expr Extent)} :
    ArgumentList ts args → Begin ts (Expr.walkAll (fun _ ↦ false) args)
  | .last h _ => (h.begin.left _).append (.nil _)
  | .more h _ hs => (h.begin.left _).append ((hs.begin.tail _).right _)

end

mutual

theorem Statement.begin {ts : List Token} {next : Token} {s : Stmt Extent} :
    Statement ts next s → Begin ts (s.walk fun _ ↦ false)
  | .assign _ _ h => .visit _ rfl ((h.begin.tail _).tail _)
  | .call (.mk hn hl h) => .visit _ rfl (Call.mk hn hl h).begin
  | .loop _ h hb => .visit _ rfl (((h.begin.left _).append (hb.begin.right _)).tail _)
  | .branch _ h ht => .visit _ rfl (((h.begin.left _).append (ht.begin.right _)).tail _)
  | .branchElse _ h ht _ hf =>
    have hboth := (h.begin.left _).append (ht.begin.right _)
    .visit _ rfl (((hboth.left _).append ((hf.begin.tail _).right _)).tail _)
  | .print _ h => .visit _ rfl (h.begin.tail _)
  | .ret _ _ => .visit _ rfl (.nil _)
  | .retValue _ _ h => .visit _ rfl (h.begin.tail _)

theorem Statements.begin {ts : List Token} {next : Token} {ss : List (Stmt Extent)} :
    Statements ts next ss → Begin ts (Stmt.walkAll (fun _ ↦ false) ss)
  | .nil => .nil _
  | .cons h hs => (h.begin.left _).append (hs.begin.right _)

theorem BraceBlock.begin {ts : List Token} {b : Block Extent} :
    BraceBlock ts b → Begin ts (b.walk fun _ ↦ false)
  | .mk _ h _ => .visit _ rfl ((h.begin.left _).tail _)

end

theorem Declaration.begin {d : VarDecl Extent} (h : Declaration ts d) :
    Begin ts (d.walk fun _ ↦ false) := by
  cases h with
  | plain => exact .visit _ rfl (.nil _)
  | @initial word name colon type eq ts e _ _ _ _ _ h =>
    have hinit := h.begin.right [word, name, colon, type, eq]
    exact .visit _ rfl (hinit.append (.nil _))

theorem Declarations.begin {ts : List Token} {ds : List (VarDecl Extent)} :
    Declarations ts ds → Begin ts (ds.flatMap (VarDecl.walk fun _ ↦ false))
  | .nil => .nil _
  | .cons h hs => (h.begin.left _).append (hs.begin.right _)

theorem Parts.begin {next : Token} {vars : VarBlock Extent} {block : Block Extent}
    (h : Parts ts next vars block) :
    Begin (ts ++ [next]) (vars.walk (fun _ ↦ false) ++ block.walk fun _ ↦ false) := by
  cases h with
  | @mk next ts us ds ss hd hs =>
    have hnext : next ∈ ts ++ us ++ [next] := List.mem_append_right _ List.mem_cons_self
    apply Begin.append
    · refine .visit_ofTokens rfl (fun t ht ↦ by simp [ht]) ?_ ((hd.begin.left us).left [next])
      cases us with
      | nil => exact hnext
      | cons first more => simp
    · exact .visit_ofTokens rfl (fun t ht ↦ by simp [ht]) hnext ((hs.begin.right ts).left [next])

theorem FunctionBody.begin {body : Body Extent} (h : FunctionBody ts body) :
    Begin ts (Node.visit (fun _ ↦ false) (.body body) (body.walkParts fun _ ↦ false)) := by
  cases h with
  | mk _ h _ => exact .visit _ rfl (h.begin.tail _)

theorem Parameter.begin {p : Param Extent} (h : Parameter ts p) :
    Begin ts (Node.visit (fun _ ↦ false) (.param p) []) := by
  cases h with
  | mk => exact .visit _ rfl (.nil _)

theorem ParameterList.begin {ts : List Token} {ps : List (Param Extent)} :
    ParameterList ts ps → Begin ts (ps.flatMap fun p ↦ Node.visit (fun _ ↦ false) (.param p) [])
  | .last h _ => (h.begin.left _).append (.nil _)
  | .more h _ hs => (h.begin.left _).append ((hs.begin.tail _).right _)

theorem Function.begin {f : FuncDef Extent} (h : Function ts f) :
    Begin ts (f.walk fun _ ↦ false) := by
  cases h with
  | @mk word name l ts us vs ps returns body _ _ _ hp _ hb =>
    have hparams : Begin ts (ps.flatMap fun p ↦ Node.visit (fun _ ↦ false) (.param p) []) := by
      cases hp with
      | none => exact .nil _
      | some hp => exact hp.begin
    have hparts := ((hparams.left us).left vs).append (hb.begin.right (ts ++ us))
    exact .visit _ rfl (((hparts.tail _).tail _).tail _)

theorem Functions.begin {ts : List Token} {fs : List (FuncDef Extent)} :
    Functions ts fs → Begin ts (fs.flatMap (FuncDef.walk fun _ ↦ false))
  | .nil => .nil _
  | .cons h hs => (h.begin.left _).append (hs.begin.right _)

theorem Functions.split {before after : List (FuncDef Extent)} {f : FuncDef Extent}
    {ts : List Token} (h : Functions ts (before ++ f :: after)) :
    ∃ us vs ws, ts = us ++ vs ++ ws ∧ Functions us before ∧ Function vs f ∧
      Functions ws after := by
  induction before generalizing ts with
  | nil =>
    cases h with
    | cons h hs => exact ⟨[], _, _, rfl, .nil, h, hs⟩
  | cons first before ih =>
    cases h with
    | @cons ts _ _ _ h hs =>
      obtain ⟨us, vs, ws, rfl, hus, hvs, hws⟩ := ih hs
      exact ⟨ts ++ us, vs, ws, by simp, .cons h hus, hvs, hws⟩

/-- No node of a definition begins where one of another definition or of the main part does. -/
theorem Program.start_ne {s : Script Extent} (h : Program ts s)
    (hts : (ts.map Token.startPlace).Nodup) {before after : List (FuncDef Extent)}
    {f : FuncDef Extent} {b : Body Extent} (hfuncs : s.funcs = before ++ f :: after)
    (hmain : s.main = some b) {x y : Node Extent}
    (hx : x ∈ (before ++ after).flatMap (FuncDef.walk fun _ ↦ false) ++ (Node.main b).all)
    (hy : y ∈ (Node.func f).all) : x.note.span.start ≠ y.note.span.start := by
  cases h with
  | @mk ts us stop fs vars block hf hm hstop =>
    obtain rfl : fs = before ++ f :: after := hfuncs
    obtain rfl := Option.some.inj hmain
    obtain ⟨ts₁, ts₂, ts₃, rfl, hbefore, hown, hafter⟩ := hf.split
    have hothers : Begin (ts₁ ++ ts₃ ++ (us ++ [stop]))
        ((before ++ after).flatMap (FuncDef.walk fun _ ↦ false) ++
          (Node.main ⟨.ofTokens stop us, vars, block⟩).all) := by
      rw [List.flatMap_append]
      refine .append (.left (.append (hbefore.begin.left _) (hafter.begin.right _)) _) (.right ?_ _)
      exact .visit_ofTokens rfl (List.subset_append_left _ _) (by simp) hm.begin
    have hx := hothers x hx
    have hy := hown.begin y hy
    intro heq
    rw [heq] at hx
    simp only [List.map_append, List.append_assoc] at hts hx
    rw [(List.perm_append_comm_assoc _ _ _).nodup_iff] at hts
    exact (List.nodup_append.1 hts).2.2 _ hy _ hx rfl

end Grammar

/-- No node of a definition has the span of one of another definition or of the main part. -/
theorem Script.span_ne {source : String} {s : Script Tag} (hs : Script.parse source = .ok s)
    {before after : List (FuncDef Tag)} {f : FuncDef Tag} {b : Body Tag}
    (hfuncs : s.funcs = before ++ f :: after) (hmain : s.main = some b) {x y : Node Tag}
    (hx : x ∈ (before ++ after).flatMap (FuncDef.walk fun _ ↦ false) ++ (Node.main b).all)
    (hy : y ∈ (Node.func f).all) : x.note.span ≠ y.note.span := by
  obtain ⟨tree, hprogram, rfl⟩ := Script.parse_eq_ok_iff.1 hs
  rw [← tree.map_number] at hprogram
  have hfuncs' : (tree.number.map Tag.extent).funcs = before.map (FuncDef.map Tag.extent) ++
      f.map Tag.extent :: after.map (FuncDef.map Tag.extent) := by
    rw [Script.map, hfuncs, List.map_append, List.map_cons]
  have hmain' : (tree.number.map Tag.extent).main = some (b.map Tag.extent) := by
    rw [Script.map, hmain, Option.map_some]
  have hx' := List.mem_map_of_mem (f := Node.map Tag.extent) hx
  have hy' := List.mem_map_of_mem (f := Node.map Tag.extent) hy
  rw [← Node.all_map] at hy'
  rw [List.map_append, ← flatMap_walk_map _ (FuncDef.walk_map _), ← Node.all_map,
    List.map_append] at hx'
  have hstart := hprogram.start_ne (Lexer.nodup_startPlaces source) hfuncs' hmain' hx' hy'
  rw [Node.note_map, Node.note_map] at hstart
  exact fun heq ↦ hstart (congrArg Span.start heq)

end ScriptAnalysis
