import ScriptAnalysis.Proofs.Numbers

/-!
# Every node has a range of tokens

A tree can be laid over the tokens it was read from. Every node then has a range of positions: its
extent is that of the tokens there, and the ranges of its direct parts stand inside its own, each
behind the one before. A node that was read from no token has an empty range.
-/

namespace ScriptAnalysis

/-- The positions of tokens from `first` up to `stop`, which is left out. -/
structure TokenRange where
  first : Nat
  stop : Nat

namespace TokenRange

def tokens (range : TokenRange) (ts : List Token) : List Token :=
  (ts.drop range.first).take (range.stop - range.first)

/-- Whether some ranges lie inside a range, each behind the one before. -/
def Holds (range : TokenRange) (parts : List TokenRange) : Prop :=
  (∀ part ∈ parts, range.first ≤ part.first ∧ part.stop ≤ range.stop) ∧
    parts.Pairwise fun part later ↦ part.stop ≤ later.first

end TokenRange

/-- Whether an extent is that of the tokens in a range. An empty extent lies before the token at the
position of the range. -/
structure Extent.OfRange (ts : List Token) (range : TokenRange) (extent : Extent) : Prop where
  le : range.first ≤ range.stop
  text : extent.text = String.join ((range.tokens ts).map Token.lexeme)
  filled : range.first < range.stop → ∃ first last, ts[range.first]? = some first ∧
    ts[range.stop - 1]? = some last ∧ extent.span = ⟨first.startPlace, last.stopPlace⟩
  empty : range.first = range.stop → ∃ next, ts[range.first]? = some next ∧ extent.text = "" ∧
    extent.span = ⟨next.startPlace, next.startPlace⟩

section Extents

variable {ts us after : List Token} {start : Nat}

theorem TokenRange.tokens_of_isPrefix (h : us <+: ts.drop start) :
    TokenRange.tokens ⟨start, start + us.length⟩ ts = us := by
  rw [TokenRange.tokens, Nat.add_sub_cancel_left]
  exact (List.prefix_iff_eq_take.1 h).symm

theorem Extent.ofRange_spanning (h : us <+: ts.drop start) (hne : us ≠ []) :
    (Extent.spanning us hne).OfRange ts ⟨start, start + us.length⟩ := by
  have hget (i : Nat) (hi : i < us.length) : ts[start + i]? = some us[i] := by
    rw [← List.getElem?_drop]
    exact List.prefix_iff_getElem?.1 h i hi
  have hlength : 0 < us.length := List.length_pos_iff.2 hne
  refine ⟨by simp, ?_, fun _ ↦ ?_, fun heq ↦ ?_⟩
  · rw [TokenRange.tokens_of_isPrefix h]
    rfl
  · refine ⟨us.head hne, us.getLast hne, ?_, ?_, rfl⟩
    · rw [List.head_eq_getElem]
      exact hget 0 hlength
    · rw [List.getLast_eq_getElem, ← hget (us.length - 1) (by omega)]
      congr 1
      simp only
      omega
  · simp only at heq
    omega

theorem Extent.ofRange_ofTokens {next : Token} (h : us ++ after <+: ts.drop start)
    (hnext : after.head? = some next) :
    (Extent.ofTokens next us).OfRange ts ⟨start, start + us.length⟩ := by
  by_cases hne : us = []
  · subst hne
    obtain ⟨more, rfl⟩ := List.head?_eq_some_iff.1 hnext
    have hget : ts[start]? = some next := by
      have hget := List.prefix_iff_getElem?.1 h 0 (by simp)
      simpa using hget
    exact ⟨by simp, by simp [TokenRange.tokens, Extent.ofTokens],
      fun hlt ↦ absurd hlt (by simp), fun _ ↦ ⟨next, hget, rfl, rfl⟩⟩
  · rw [Extent.ofTokens_eq_spanning next hne]
    exact Extent.ofRange_spanning ((List.prefix_append us after).trans h) hne

end Extents

mutual

/-- Whether a tree can be laid over the tokens of a range. -/
inductive Node.ReadAt (ts : List Token) : TokenRange → Node Extent → Prop
  | mk {range : TokenRange} {node : Node Extent} (hnote : node.note.OfRange ts range)
      (hparts : Node.PartsReadAt ts range.first node.children range.stop) :
      Node.ReadAt ts range node

/-- Whether trees can be laid over tokens one behind the other, from a position on up to another. -/
inductive Node.PartsReadAt (ts : List Token) : Nat → List (Node Extent) → Nat → Prop
  | nil {first stop : Nat} (hle : first ≤ stop) : Node.PartsReadAt ts first [] stop
  | cons {first stop : Nat} {range : TokenRange} {part : Node Extent} {parts : List (Node Extent)}
      (hle : first ≤ range.first) (h : Node.ReadAt ts range part)
      (hs : Node.PartsReadAt ts range.stop parts stop) :
      Node.PartsReadAt ts first (part :: parts) stop

end

namespace Node

variable {ts : List Token} {range : TokenRange} {first first' mid stop stop' : Nat}
  {node : Node Extent} {parts parts' : List (Node Extent)}

theorem ReadAt.le : ReadAt ts range node → range.first ≤ range.stop
  | .mk hnote _ => hnote.le

namespace PartsReadAt

theorem le (h : PartsReadAt ts first parts stop) : first ≤ stop := by
  induction parts generalizing first with
  | nil =>
    cases h with
    | nil hle => exact hle
  | cons part parts ih =>
    cases h with
    | cons hle h hs => exact Nat.le_trans hle (Nat.le_trans h.le (ih hs))

theorem mono (h : PartsReadAt ts first parts stop) (hfirst : first' ≤ first)
    (hstop : stop ≤ stop') : PartsReadAt ts first' parts stop' := by
  induction parts generalizing first first' with
  | nil => exact .nil (Nat.le_trans hfirst (Nat.le_trans h.le hstop))
  | cons part parts ih =>
    cases h with
    | cons hle h hs => exact .cons (Nat.le_trans hfirst hle) h (ih hs (Nat.le_refl _))

theorem append (h : PartsReadAt ts first parts mid) (h' : PartsReadAt ts mid parts' stop) :
    PartsReadAt ts first (parts ++ parts') stop := by
  induction parts generalizing first with
  | nil => exact h'.mono h.le (Nat.le_refl _)
  | cons part parts ih =>
    cases h with
    | cons hle h hs => exact .cons hle h (ih hs)

end PartsReadAt

end Node

namespace Grammar

/-- Whether a node is read from some tokens wherever they stand with certain tokens behind them. -/
def Reads (us after : List Token) (node : Node Extent) : Prop :=
  ∀ ts start, us ++ after <+: ts.drop start → node.ReadAt ts ⟨start, start + us.length⟩

/-- Whether nodes are read one behind the other from some tokens, perhaps not using all of them,
wherever the tokens stand with certain tokens behind them. -/
def ReadsAll (us after : List Token) (nodes : List (Node Extent)) : Prop :=
  ∀ ts start, us ++ after <+: ts.drop start →
    Node.PartsReadAt ts start nodes (start + us.length)

variable {us vs after : List Token} {node : Node Extent} {nodes nodes' : List (Node Extent)}

theorem Reads.spanning (hne : us ≠ []) (hnote : node.note = .spanning us hne)
    (h : ReadsAll us after node.children) : Reads us after node := by
  intro ts start hat
  refine .mk ?_ (h ts start hat)
  rw [hnote]
  exact Extent.ofRange_spanning ((List.prefix_append us after).trans hat) hne

theorem Reads.ofTokens {next : Token} (hnext : after.head? = some next)
    (hnote : node.note = .ofTokens next us) (h : ReadsAll us after node.children) :
    Reads us after node := by
  intro ts start hat
  refine .mk ?_ (h ts start hat)
  rw [hnote]
  exact Extent.ofRange_ofTokens hat hnext

namespace ReadsAll

theorem nil : ReadsAll us after [] :=
  fun _ start _ ↦ .nil (Nat.le_add_right start us.length)

theorem append (h : ReadsAll us (vs ++ after) nodes) (h' : ReadsAll vs after nodes') :
    ReadsAll (us ++ vs) after (nodes ++ nodes') := by
  intro ts start hat
  rw [List.append_assoc] at hat
  have hlater : vs ++ after <+: ts.drop (start + us.length) := by
    obtain ⟨more, hmore⟩ := hat
    refine ⟨more, ?_⟩
    rw [← List.drop_drop, ← hmore, List.append_assoc us, List.drop_left]
  rw [List.length_append, ← Nat.add_assoc]
  exact (h ts start hat).append (h' ts _ hlater)

theorem cons (h : Reads us (vs ++ after) node) (hs : ReadsAll vs after nodes) :
    ReadsAll (us ++ vs) after (node :: nodes) := by
  have hnode : ReadsAll us (vs ++ after) [node] := fun ts start hat ↦
    .cons (Nat.le_refl start) (h ts start hat) (.nil (Nat.le_refl _))
  exact hnode.append hs

theorem single (h : Reads us after node) : ReadsAll us after [node] := by
  have hnil : ReadsAll [] after [] := nil
  simpa using cons h hnil

theorem left (h : ReadsAll us (vs ++ after) nodes) : ReadsAll (us ++ vs) after nodes := by
  simpa using h.append nil

theorem right (us : List Token) (h : ReadsAll vs after nodes) : ReadsAll (us ++ vs) after nodes :=
  append nil h

theorem tail {t : Token} (h : ReadsAll us after nodes) : ReadsAll (t :: us) after nodes :=
  h.right [t]

end ReadsAll

mutual

theorem Expression.reads {level : Nat} {us after : List Token} {e : Expr Extent} :
    Expression level us e → Reads us after (.expr e)
  | .unary h => h.reads
  | .operand h => h.reads
  | .operation hl _ _ hr => .spanning _ rfl (.cons hl.reads (.tail (.single hr.reads)))

theorem Unary.reads {us after : List Token} {e : Expr Extent} :
    Unary us e → Reads us after (.expr e)
  | .negate _ h => .spanning _ rfl (.tail (.single h.reads))
  | .primary h => h.reads

theorem Primary.reads {us after : List Token} {e : Expr Extent} :
    Primary us e → Reads us after (.expr e)
  | .int _ | .string _ | .true _ | .false _ | .ident _ => .spanning _ rfl .nil
  | .call h => h.reads
  | .parens _ h _ => .spanning _ rfl (.tail (.left (.single h.reads)))

theorem Call.reads {us after : List Token} {note : Extent} {callee : String}
    {args : List (Expr Extent)} :
    Call us note callee args → Reads us after (.expr (.call note callee args))
  | .mk _ _ h => .spanning _ rfl (.tail (.tail h.reads))

theorem Arguments.reads {us after : List Token} {args : List (Expr Extent)} :
    Arguments us args → ReadsAll us after (args.map .expr)
  | .none _ => .nil
  | .some h => h.reads

theorem ArgumentList.reads {us after : List Token} {args : List (Expr Extent)} :
    ArgumentList us args → ReadsAll us after (args.map .expr)
  | .last h _ => .left (.single h.reads)
  | .more h _ hs => .cons h.reads (.tail hs.reads)

end

mutual

theorem Statement.reads {us after : List Token} {next : Token} {s : Stmt Extent} :
    Statement us next s → Reads us after (.stmt s)
  | .assign _ _ h => .spanning _ rfl (.tail (.tail (.single h.reads)))
  | .call (.mk hn hl h) => .spanning _ rfl (.single (Call.mk hn hl h).reads)
  | .loop _ h hb | .branch _ h hb =>
    .spanning _ rfl (.tail (.cons h.reads (.single hb.reads)))
  | .branchElse _ h ht _ hf =>
    have hboth := ReadsAll.cons h.reads (.single ht.reads)
    .spanning _ rfl (.tail (hboth.append (.tail (.single hf.reads))))
  | .print _ h => .spanning _ rfl (.tail (.single h.reads))
  | .ret _ _ => .spanning _ rfl .nil
  | .retValue _ _ h => .spanning _ rfl (.tail (.single h.reads))

theorem Statements.reads {us after : List Token} {next : Token} {ss : List (Stmt Extent)} :
    Statements us next ss → ReadsAll us after (ss.map .stmt)
  | .nil => .nil
  | .cons h hs => .cons h.reads hs.reads

theorem BraceBlock.reads {us after : List Token} {b : Block Extent} :
    BraceBlock us b → Reads us after (.block b)
  | .mk _ h _ => .spanning _ rfl (.tail (.left h.reads))

end

theorem Declaration.reads {d : VarDecl Extent} (h : Declaration us d) :
    Reads us after (.decl d) := by
  cases h with
  | plain => exact .spanning _ rfl .nil
  | @initial word name colon type eq us e _ _ _ _ _ h =>
    have hinit : ReadsAll ([word, name, colon, type, eq] ++ us) after [.expr e] :=
      .right _ (.single h.reads)
    exact .spanning _ rfl hinit

theorem Declarations.reads {us after : List Token} {ds : List (VarDecl Extent)} :
    Declarations us ds → ReadsAll us after (ds.map .decl)
  | .nil => .nil
  | .cons h hs => .cons h.reads hs.reads

/-- The variables and the statements of a body may have no tokens, so they take the token that comes
next. -/
theorem Parts.reads {next : Token} {vars : VarBlock Extent} {block : Block Extent}
    (h : Parts us next vars block) (hnext : after.head? = some next) :
    ReadsAll us after [.vars vars, .block block] := by
  cases h with
  | @mk _ us vs ds ss hd hs =>
    have hhead : (vs ++ after).head? = some (vs.headD next) := by
      cases vs with
      | nil => exact hnext
      | cons t vs => rfl
    exact .cons (.ofTokens hhead rfl hd.reads) (.single (.ofTokens hnext rfl hs.reads))

theorem FunctionBody.reads {body : Body Extent} (h : FunctionBody us body) :
    Reads us after (.body body) := by
  cases h with
  | mk _ h _ => exact .spanning _ rfl (.tail (.left (h.reads rfl)))

theorem Parameter.reads {p : Param Extent} (h : Parameter us p) : Reads us after (.param p) := by
  cases h with
  | mk => exact .spanning _ rfl .nil

theorem ParameterList.reads {us after : List Token} {ps : List (Param Extent)} :
    ParameterList us ps → ReadsAll us after (ps.map .param)
  | .last h _ => .left (.single h.reads)
  | .more h _ hs => .cons h.reads (.tail hs.reads)

theorem Parameters.reads {ps : List (Param Extent)} (h : Parameters us ps) :
    ReadsAll us after (ps.map .param) := by
  cases h with
  | none => exact .nil
  | some h => exact h.reads

theorem Function.reads {f : FuncDef Extent} (h : Function us f) : Reads us after (.func f) := by
  cases h with
  | mk _ _ _ hp _ hb =>
    refine .spanning _ rfl (.tail (.tail (.tail ?_)))
    exact .append (.left hp.reads) (.single hb.reads)

theorem Functions.reads {us after : List Token} {fs : List (FuncDef Extent)} :
    Functions us fs → ReadsAll us after (fs.map .func)
  | .nil => .nil
  | .cons h hs => .cons h.reads hs.reads

theorem Program.readAt {s : Script Extent} (h : Program us s) :
    (Node.script s).ReadAt us ⟨0, us.length - 1⟩ := by
  cases h with
  | @mk us vs stop fs vars block hf hm _ =>
    have hmain : Reads vs [stop] (.main ⟨.ofTokens stop vs, vars, block⟩) :=
      .ofTokens rfl rfl (hm.reads rfl)
    have hparts : ReadsAll (us ++ vs) [stop] (fs.map .func ++ [.main _]) :=
      .append hf.reads (.single hmain)
    have hscript : Reads (us ++ vs) [stop] (.script ⟨.ofTokens stop (us ++ vs), fs, some _⟩) :=
      .ofTokens rfl rfl hparts
    simpa using hscript (us ++ vs ++ [stop]) 0 List.prefix_rfl

theorem Standalone.readAt {e : Expr Extent} (h : Standalone us e) :
    (Node.expr e).ReadAt us ⟨0, us.length - 1⟩ := by
  cases h with
  | @mk us stop _ h _ =>
    have hexpr : Reads us [stop] (.expr e) := h.reads
    simpa using hexpr (us ++ [stop]) 0 List.prefix_rfl

end Grammar

theorem Node.ReadFrom.readAt {source : String} {root : Node Tag} (h : root.ReadFrom source) :
    (root.map Tag.extent).ReadAt (Lexer.allTokens source)
      ⟨0, (Lexer.tokens source).length⟩ := by
  have hlength : (Lexer.tokens source).length = (Lexer.allTokens source).length - 1 := by
    simp [Lexer.allTokens]
  rw [hlength]
  cases h with
  | script h =>
    obtain ⟨tree, hprogram, rfl⟩ := Script.parse_eq_ok_iff.1 h
    rw [Node.map, Script.map_number]
    exact hprogram.readAt
  | expr h =>
    obtain ⟨tree, hexpr, rfl⟩ := Expr.parse_eq_ok_iff.1 h
    rw [Node.map, Expr.map_number]
    exact hexpr.readAt

/-! ## The range of each node -/

theorem TokenRange.Holds.cons {first stop : Nat} {part : TokenRange} {parts : List TokenRange}
    (hfirst : first ≤ part.first) (hpart : part.first ≤ part.stop) (hstop : part.stop ≤ stop)
    (h : TokenRange.Holds ⟨part.stop, stop⟩ parts) :
    TokenRange.Holds ⟨first, stop⟩ (part :: parts) := by
  refine ⟨?_, List.pairwise_cons.2 ⟨fun later hlater ↦ (h.1 later hlater).1, h.2⟩⟩
  rw [List.forall_mem_cons]
  refine ⟨⟨hfirst, hstop⟩, ?_⟩
  intro later hlater
  have hafter : part.stop ≤ later.first := (h.1 later hlater).1
  exact ⟨by simp only; omega, (h.1 later hlater).2⟩

/-- Whether ranges, given by the numbers of nodes, lay a tree over tokens. -/
def Node.Ranged (ts : List Token) (range : Nat → TokenRange) (root : Node Tag) : Prop :=
  ∀ node ∈ root.all, node.note.extent.OfRange ts (range node.note.id) ∧
    (range node.note.id).Holds (node.children.map fun child ↦ range child.note.id)

/-- Only the ranges of the nodes of a tree matter for it. -/
theorem Node.Ranged.congr {ts : List Token} {range range' : Nat → TokenRange} {root : Node Tag}
    (h : root.Ranged ts range)
    (heq : ∀ node ∈ root.all, range' node.note.id = range node.note.id) :
    root.Ranged ts range' := by
  intro node hnode
  have hchildren : (node.children.map fun child ↦ range' child.note.id) =
      node.children.map fun child ↦ range child.note.id := by
    rw [List.map_inj_left]
    intro child hchild
    exact heq child (Node.mem_all_of_mem_children hnode hchild)
  rw [heq node hnode, hchildren]
  exact h node hnode

/-- Parts that can be laid out each for itself can be laid out together, as their nodes have
different numbers. -/
theorem Node.PartsReadAt.exists_ranged {ts : List Token} {first stop : Nat}
    {parts : List (Node Tag)}
    (h : Node.PartsReadAt ts first (parts.map (Node.map Tag.extent)) stop)
    (hnodup : (ids (parts.flatMap Node.all)).Nodup)
    (heach : ∀ part ∈ parts, ∀ r, (part.map Tag.extent).ReadAt ts r → (ids part.all).Nodup →
      ∃ range, range part.note.id = r ∧ part.Ranged ts range) :
    ∃ range : Nat → TokenRange,
      TokenRange.Holds ⟨first, stop⟩ (parts.map fun part ↦ range part.note.id) ∧
        ∀ part ∈ parts, part.Ranged ts range := by
  induction parts generalizing first with
  | nil => exact ⟨fun _ ↦ ⟨0, 0⟩, by simp [TokenRange.Holds], by simp⟩
  | cons part parts ih =>
    rw [List.flatMap_cons, ids_append, List.nodup_append] at hnodup
    rw [List.forall_mem_cons] at heach
    cases h with
    | @cons _ _ r _ _ hle h hs =>
      obtain ⟨here, hr, hhere⟩ := heach.1 r h hnodup.1
      obtain ⟨there, hrow, hthere⟩ := ih hs hnodup.2.1 heach.2
      let range (id : Nat) : TokenRange := if id ∈ ids part.all then here id else there id
      have hleft : ∀ node ∈ part.all, range node.note.id = here node.note.id := by
        intro node hnode
        exact if_pos (List.mem_map_of_mem hnode)
      have hright : ∀ other ∈ parts, ∀ node ∈ other.all, range node.note.id = there node.note.id := by
        intro other hother node hnode
        refine if_neg fun hmem ↦ hnodup.2.2 _ hmem _ ?_ rfl
        exact List.mem_map_of_mem (List.mem_flatMap.2 ⟨other, hother, hnode⟩)
      refine ⟨range, ?_, List.forall_mem_cons.2 ⟨hhere.congr hleft, ?_⟩⟩
      · have hparts : (parts.map fun part ↦ range part.note.id) =
            parts.map fun part ↦ there part.note.id := by
          rw [List.map_inj_left]
          intro other hother
          exact hright other hother other other.mem_all_self
        rw [List.map_cons, hparts, hleft part part.mem_all_self, hr]
        exact .cons hle h.le hs.le hrow
      · intro other hother
        exact (hthere other hother).congr (hright other hother)

/-- In a tree with distinct numbers each node has a range of its own. -/
theorem Node.ReadAt.exists_ranged {ts : List Token} {node : Node Tag} {r : TokenRange}
    (h : (node.map Tag.extent).ReadAt ts r) (hnodup : (ids node.all).Nodup) :
    ∃ range, range node.note.id = r ∧ node.Ranged ts range := by
  cases h with
  | mk hnote hparts =>
    rw [Node.all_eq, ids_cons, List.nodup_cons] at hnodup
    rw [Node.children_map] at hparts
    obtain ⟨below, hrow, hbelow⟩ := hparts.exists_ranged hnodup.2 fun child hchild r hr hids ↦
      have := Node.count_lt_of_mem_children hchild
      hr.exists_ranged hids
    let range (id : Nat) : TokenRange := if id = node.note.id then r else below id
    have hself : range node.note.id = r := if_pos rfl
    have hother : ∀ child ∈ node.children, ∀ part ∈ child.all,
        range part.note.id = below part.note.id := by
      intro child hchild part hpart
      refine if_neg fun heq ↦ hnodup.1 ?_
      exact heq ▸ List.mem_map_of_mem (List.mem_flatMap.2 ⟨child, hchild, hpart⟩)
    refine ⟨range, hself, ?_⟩
    intro part hpart
    rcases Node.mem_all_iff.1 hpart with rfl | ⟨child, hchild, hpart⟩
    · have hchildren : (part.children.map fun child ↦ range child.note.id) =
          part.children.map fun child ↦ below child.note.id := by
        rw [List.map_inj_left]
        intro child hchild
        exact hother child hchild child child.mem_all_self
      rw [hself, hchildren]
      rw [Node.note_map] at hnote
      exact ⟨hnote, hrow⟩
    · exact (hbelow child hchild).congr (hother child hchild) part hpart
termination_by node.count

end ScriptAnalysis
