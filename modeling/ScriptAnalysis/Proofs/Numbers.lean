import ScriptAnalysis.Proofs.Children
import ScriptAnalysis.Proofs.Recognition

/-!
# The nodes of a tree have numbers of their own

Numbering a part of a tree uses numbers above the last one given before, up to the last one given
after, and a node comes after its parts. So the numbers of a tree grow in post-order, and in a tree
that was read from a source each number belongs to one node.
-/

namespace ScriptAnalysis

/-- The numbers of some nodes. -/
def ids (nodes : List (Node Tag)) : List Nat := nodes.map (·.note.id)

@[simp] theorem ids_cons (node : Node Tag) (nodes : List (Node Tag)) :
    ids (node :: nodes) = node.note.id :: ids nodes := rfl

@[simp] theorem ids_append (nodes nodes' : List (Node Tag)) :
    ids (nodes ++ nodes') = ids nodes ++ ids nodes' := List.map_append

/-- Whether numbers grow from above `low` up to at most `high`. -/
structure Rising (low high : Nat) (numbers : List Nat) : Prop where
  le : low ≤ high
  within : ∀ n ∈ numbers, low < n ∧ n ≤ high
  pairwise : numbers.Pairwise (· < ·)

namespace Rising

variable {low mid high : Nat} {xs ys : List Nat}

theorem nil (low : Nat) : Rising low low [] := ⟨Nat.le_refl low, by simp, .nil⟩

theorem append (hx : Rising low mid xs) (hy : Rising mid high ys) :
    Rising low high (xs ++ ys) := by
  refine ⟨Nat.le_trans hx.le hy.le, ?_, ?_⟩
  · intro n hn
    rcases List.mem_append.1 hn with hn | hn
    · exact ⟨(hx.within n hn).1, Nat.le_trans (hx.within n hn).2 hy.le⟩
    · exact ⟨Nat.lt_of_le_of_lt hx.le (hy.within n hn).1, (hy.within n hn).2⟩
  · rw [List.pairwise_append]
    refine ⟨hx.pairwise, hy.pairwise, ?_⟩
    intro n hn n' hn'
    have hle : n ≤ mid := (hx.within n hn).2
    have hlt : mid < n' := (hy.within n' hn').1
    omega

theorem single {n : Nat} (h : low < n) : Rising low n [n] :=
  ⟨Nat.le_of_lt h, by simp [h], List.pairwise_singleton _ n⟩

end Rising

/-- Whether a part of a node is a block in braces. These are the blocks right inside statements. -/
def Node.braces {α : Type} (parent part : Node α) : Bool :=
  match part, parent with
  | .block _, .stmt _ => true
  | _, _ => false

mutual

/-- Whether a tree has its numbers above `low` and its root, after passing over `spare` numbers, the
number `high`. Each node has the next number after its parts. -/
inductive Node.Numbered : Nat → Nat → Node Tag → Nat → Prop
  | mk {low mid spare : Nat} {node : Node Tag} (h : Node.PartsNumbered node low node.children mid)
      (hid : node.note.id = mid + spare + 1) : Node.Numbered low spare node (mid + spare + 1)

/-- Whether some parts of a node are numbered one after the other from above `low` up to `high`. A
block in braces passes over a number before it takes its own. -/
inductive Node.PartsNumbered : Node Tag → Nat → List (Node Tag) → Nat → Prop
  | nil {parent : Node Tag} {low : Nat} : Node.PartsNumbered parent low [] low
  | cons {parent part : Node Tag} {parts : List (Node Tag)} {low mid high : Nat}
      (h : Node.Numbered low (parent.braces part).toNat part mid)
      (hs : Node.PartsNumbered parent mid parts high) :
      Node.PartsNumbered parent low (part :: parts) high

end

theorem Node.Numbered.id_eq {low spare high : Nat} {node : Node Tag} :
    Node.Numbered low spare node high → node.note.id = high
  | .mk _ hid => hid

theorem Node.PartsNumbered.append {parent : Node Tag} {parts parts' : List (Node Tag)}
    {low mid high : Nat} (h : Node.PartsNumbered parent low parts mid)
    (h' : Node.PartsNumbered parent mid parts' high) :
    Node.PartsNumbered parent low (parts ++ parts') high := by
  induction parts generalizing low with
  | nil =>
    cases h
    exact h'
  | cons part parts ih =>
    cases h with
    | cons hpart hparts => exact .cons hpart (ih hparts)

mutual

theorem Node.Numbered.rising {low spare high : Nat} {node : Node Tag} :
    Node.Numbered low spare node high → Rising low high (ids node.postOrder)
  | .mk h hid => by
    rw [Node.postOrder_eq, ids_append]
    refine h.rising.append ?_
    rw [ids_cons, hid]
    exact .single (by omega)

theorem Node.PartsNumbered.rising {parent : Node Tag} {parts : List (Node Tag)} {low high : Nat} :
    Node.PartsNumbered parent low parts high →
      Rising low high (ids (parts.flatMap Node.postOrder))
  | .nil => Rising.nil _
  | .cons h hs => by
    rw [List.flatMap_cons, ids_append]
    exact h.rising.append hs.rising

end

mutual

theorem Expr.numbered (last : Nat) (e : Expr Extent) :
    Node.Numbered last 0 (.expr (e.number last).1) (e.number last).2 := by
  match e with
  | .int note digits | .string note digits | .bool note digits | .ident note digits =>
    exact .mk .nil rfl
  | .negate note op operand => exact .mk (.cons (operand.numbered last) .nil) rfl
  | .parens note inner => exact .mk (.cons (inner.numbered last) .nil) rfl
  | .binary note op left right =>
    exact .mk (.cons (left.numbered last) (.cons (right.numbered _) .nil)) rfl
  | .call note callee args => exact .mk (Expr.numberedAll _ last args) rfl

theorem Expr.numberedAll (parent : Node Tag) (last : Nat) (es : List (Expr Extent)) :
    Node.PartsNumbered parent last ((Expr.numberAll last es).1.map .expr)
      (Expr.numberAll last es).2 := by
  match es with
  | [] => exact .nil
  | e :: es => exact .cons (e.numbered last) (Expr.numberedAll parent _ es)

end

theorem Expr.numberedOption (parent : Node Tag) (last : Nat) (e : Option (Expr Extent)) :
    Node.PartsNumbered parent last ((Expr.numberOption last e).1.toList.map .expr)
      (Expr.numberOption last e).2 := by
  cases e with
  | none => exact .nil
  | some e => exact .cons (e.numbered last) .nil

mutual

theorem Stmt.numbered (last : Nat) (s : Stmt Extent) :
    Node.Numbered last 0 (.stmt (s.number last).1) (s.number last).2 := by
  match s with
  | .assign note target value => exact .mk (.cons (value.numbered last) .nil) rfl
  | .loop note condition body =>
    exact .mk (.cons (condition.numbered last) (.cons (body.numbered _) .nil)) rfl
  | .branch note condition whenTrue none =>
    exact .mk (.cons (condition.numbered last) (.cons (whenTrue.numbered _) .nil)) rfl
  | .branch note condition whenTrue (some whenFalse) =>
    exact .mk (.cons (condition.numbered last)
      (.cons (whenTrue.numbered _) (.cons (whenFalse.numbered _) .nil))) rfl
  | .print note value => exact .mk (.cons (value.numbered last) .nil) rfl
  | .ret note value => exact .mk (Expr.numberedOption _ last value) rfl
  | .call note callNote callee args =>
    exact .mk (.cons (.mk (Expr.numberedAll _ last args) rfl) .nil) rfl

theorem Block.numbered (last : Nat) (b : Block Extent) :
    Node.Numbered last 1 (.block (b.number last).1) (b.number last).2 := by
  match b with
  | .mk note stmts => exact .mk (Stmt.numberedAll (.block _) last stmts) rfl

theorem Stmt.numberedAll (parent : Node Tag) (last : Nat) (stmts : List (Stmt Extent)) :
    Node.PartsNumbered parent last ((Stmt.numberAll last stmts).1.map .stmt)
      (Stmt.numberAll last stmts).2 := by
  match stmts with
  | [] => exact .nil
  | s :: stmts => exact .cons (s.numbered last) (Stmt.numberedAll parent _ stmts)

end

theorem Block.numberedPlain (last : Nat) (b : Block Extent) :
    Node.Numbered last 0 (.block (b.numberPlain last).1) (b.numberPlain last).2 := by
  cases b with
  | mk note stmts => exact .mk (Stmt.numberedAll (.block _) last stmts) rfl

theorem Param.numberedAll (parent : Node Tag) (last : Nat) (ps : List (Param Extent)) :
    Node.PartsNumbered parent last ((Param.numberAll last ps).1.map .param)
      (Param.numberAll last ps).2 := by
  induction ps generalizing last with
  | nil => exact .nil
  | cons p ps ih => exact .cons (.mk .nil rfl) (ih (last + 1))

theorem VarDecl.numbered (last : Nat) (d : VarDecl Extent) :
    Node.Numbered last 0 (.decl (d.number last).1) (d.number last).2 :=
  .mk (Expr.numberedOption _ last d.init) rfl

theorem VarDecl.numberedAll (parent : Node Tag) (last : Nat) (ds : List (VarDecl Extent)) :
    Node.PartsNumbered parent last ((VarDecl.numberAll last ds).1.map .decl)
      (VarDecl.numberAll last ds).2 := by
  induction ds generalizing last with
  | nil => exact .nil
  | cons d ds ih => exact .cons (d.numbered last) (ih _)

theorem VarBlock.numbered (last : Nat) (v : VarBlock Extent) :
    Node.Numbered last 0 (.vars (v.number last).1) (v.number last).2 :=
  .mk (VarDecl.numberedAll _ last v.decls) rfl

theorem Body.numbered (last : Nat) (b : Body Extent) :
    Node.Numbered last 0 (.body (b.number last).1) (b.number last).2 :=
  .mk (.cons (b.vars.numbered last) (.cons (b.block.numberedPlain _) .nil)) rfl

theorem Body.numberedMain (last : Nat) (b : Body Extent) :
    Node.Numbered last 0 (.main (b.number last).1) (b.number last).2 :=
  .mk (.cons (b.vars.numbered last) (.cons (b.block.numberedPlain _) .nil)) rfl

theorem FuncDef.numbered (last : Nat) (f : FuncDef Extent) :
    Node.Numbered last 0 (.func (f.number last).1) (f.number last).2 :=
  .mk ((Param.numberedAll _ last f.params).append (.cons (f.body.numbered _) .nil)) rfl

theorem FuncDef.numberedAll (parent : Node Tag) (last : Nat) (fs : List (FuncDef Extent)) :
    Node.PartsNumbered parent last ((FuncDef.numberAll last fs).1.map .func)
      (FuncDef.numberAll last fs).2 := by
  induction fs generalizing last with
  | nil => exact .nil
  | cons f fs ih => exact .cons (f.numbered last) (ih _)

theorem Script.numbered (s : Script Extent) :
    Node.Numbered 0 0 (.script s.number) s.number.note.id := by
  unfold Script.number
  cases s.main with
  | none => exact .mk ((FuncDef.numberedAll _ 0 s.funcs).append .nil) rfl
  | some main =>
    exact .mk ((FuncDef.numberedAll _ 0 s.funcs).append (.cons (main.numberedMain _) .nil)) rfl

/-- Whether a program or a single expression is what a source was read as. -/
inductive Node.ReadFrom (source : String) : Node Tag → Prop
  | script {s : Script Tag} (h : Script.parse source = .ok s) : ReadFrom source (.script s)
  | expr {e : Expr Tag} (h : Expr.parse source = .ok e) : ReadFrom source (.expr e)

/-- A tree that was read has the numbers from one on. -/
theorem Node.ReadFrom.numbered {source : String} {root : Node Tag} (h : root.ReadFrom source) :
    Node.Numbered 0 0 root root.note.id := by
  cases h with
  | script h =>
    obtain ⟨tree, -, rfl⟩ := Script.parse_eq_ok_iff.1 h
    exact tree.numbered
  | expr h =>
    obtain ⟨tree, -, rfl⟩ := Expr.parse_eq_ok_iff.1 h
    have hnumbered := tree.numbered 0
    rw [← hnumbered.id_eq] at hnumbered
    exact hnumbered

theorem Node.ReadFrom.nodup_ids {source : String} {root : Node Tag} (h : root.ReadFrom source) :
    (ids root.all).Nodup := by
  have hperm : (ids root.postOrder).Perm (ids root.all) := root.perm_postOrder.map _
  rw [← hperm.nodup_iff]
  exact h.numbered.rising.pairwise.imp Nat.ne_of_lt

/-- Nodes with distinct numbers are known by them. -/
theorem eq_of_id_eq {nodes : List (Node Tag)} (h : (ids nodes).Nodup) {node node' : Node Tag}
    (hnode : node ∈ nodes) (hnode' : node' ∈ nodes) (hid : node.note.id = node'.note.id) :
    node = node' := by
  induction nodes with
  | nil => cases hnode
  | cons first others ih =>
    rw [ids_cons, List.nodup_cons] at h
    have hfirst : ∀ other ∈ others, first.note.id ≠ other.note.id := by
      intro other hother heq
      exact h.1 (heq ▸ List.mem_map_of_mem hother)
    rcases List.mem_cons.1 hnode with heq | hmem <;> rcases List.mem_cons.1 hnode' with heq' | hmem'
    · rw [heq, heq']
    · exact absurd (heq ▸ hid) (hfirst node' hmem')
    · exact absurd (heq' ▸ hid).symm (hfirst node hmem)
    · exact ih h.2 hmem hmem'

end ScriptAnalysis
