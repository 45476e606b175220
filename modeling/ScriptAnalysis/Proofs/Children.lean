import Mathlib.Data.List.Perm.Basic
import ScriptAnalysis.Proofs.Shape

/-!
# Nodes and their direct parts

The walk over a tree is the walk over the direct parts of its root, one after the other, behind the
root itself. So every part of a node has fewer nodes than the node, and a tree can be told from its
parts upwards: in its post-order each node comes after what lies below it.
-/

namespace ScriptAnalysis

variable {α β : Type}

theorem Expr.walkAll_eq_flatMap (skip : Node α → Bool) (es : List (Expr α)) :
    Expr.walkAll skip es = es.flatMap (Expr.walk skip) := by
  induction es with
  | nil => rfl
  | cons e es ih => rw [Expr.walkAll, ih, List.flatMap_cons]

theorem Stmt.walkAll_eq_flatMap (skip : Node α → Bool) (stmts : List (Stmt α)) :
    Stmt.walkAll skip stmts = stmts.flatMap (Stmt.walk skip) := by
  induction stmts with
  | nil => rfl
  | cons s stmts ih => rw [Stmt.walkAll, ih, List.flatMap_cons]

theorem Expr.walk_eq (e : Expr α) :
    e.walk (fun _ ↦ false) = .expr e :: e.children.flatMap Node.all := by
  cases e with
  | call note callee args =>
    rw [Expr.walk, Expr.walkAll_eq_flatMap, Expr.children, List.flatMap_map]
    rfl
  | binary note op left right =>
    simp [Expr.walk, Expr.children, Node.visit, Node.all, Node.walk]
  | _ => simp [Expr.walk, Expr.children, Node.visit, Node.all, Node.walk]

theorem Stmt.walk_eq (s : Stmt α) :
    s.walk (fun _ ↦ false) = .stmt s :: s.children.flatMap Node.all := by
  match s with
  | .assign .. | .loop .. | .print .. | .call .. =>
    simp [Stmt.walk, Stmt.children, Node.visit, Node.all, Node.walk]
  | .branch _ _ _ none | .branch _ _ _ (some _) =>
    simp [Stmt.walk, Stmt.children, Node.visit, Node.all, Node.walk]
  | .ret _ none | .ret _ (some _) =>
    simp [Stmt.walk, Stmt.children, Node.visit, Node.all, Node.walk]

/-- The nodes of a tree are its root and then the nodes of the direct parts of the root. -/
theorem Node.all_eq (node : Node α) : node.all = node :: node.children.flatMap Node.all := by
  cases node with
  | expr e => exact e.walk_eq
  | stmt s => exact s.walk_eq
  | block b =>
    cases b with
    | mk note stmts =>
      rw [Node.children, List.flatMap_map, Node.all, Node.walk, Block.walk,
        Stmt.walkAll_eq_flatMap]
      rfl
  | script s =>
    rw [Node.children, List.flatMap_append, List.flatMap_map, List.flatMap_map]
    rfl
  | func f =>
    rw [Node.children, List.flatMap_append, List.flatMap_map, List.flatMap_singleton]
    rfl
  | param p => rfl
  | main b | body b =>
    simp [Node.all, Node.walk, Node.visit, Node.children, Body.walkParts]
  | vars v =>
    rw [Node.children, List.flatMap_map]
    rfl
  | decl d =>
    rw [Node.children, List.flatMap_map]
    rfl

theorem Node.mem_all_self (node : Node α) : node ∈ node.all := by
  rw [Node.all_eq]
  exact List.mem_cons_self

theorem Node.mem_all_iff {node other : Node α} :
    other ∈ node.all ↔ other = node ∨ ∃ child ∈ node.children, other ∈ child.all := by
  rw [Node.all_eq, List.mem_cons, List.mem_flatMap]

theorem Node.count_lt_of_mem_children {node child : Node α} (h : child ∈ node.children) :
    child.count < node.count := by
  have hsub : child.all.Sublist (node.children.flatMap Node.all) := by
    rw [List.flatMap_def]
    exact List.sublist_flatten_of_mem (List.mem_map_of_mem h)
  rw [Node.count, Node.count, node.all_eq, List.length_cons]
  exact Nat.lt_succ_of_le hsub.length_le

/-- What lies below a node lies below everything the node lies below. -/
theorem Node.mem_all_trans {root node other : Node α} (hnode : node ∈ root.all)
    (hother : other ∈ node.all) : other ∈ root.all := by
  rw [Node.mem_all_iff] at hnode ⊢
  rcases hnode with rfl | ⟨child, hchild, hnode⟩
  · exact Node.mem_all_iff.1 hother
  · have := Node.count_lt_of_mem_children hchild
    exact .inr ⟨child, hchild, Node.mem_all_trans hnode hother⟩
termination_by root.count

theorem Node.mem_all_of_mem_children {root node child : Node α} (hnode : node ∈ root.all)
    (hchild : child ∈ node.children) : child ∈ root.all :=
  Node.mem_all_trans hnode (Node.mem_all_iff.2 (.inr ⟨child, hchild, child.mem_all_self⟩))

/-- A node and all nodes below it, each after its parts. -/
def Node.postOrder (node : Node α) : List (Node α) :=
  node.children.attach.flatMap (fun child ↦ child.1.postOrder) ++ [node]
termination_by node.count
decreasing_by exact Node.count_lt_of_mem_children child.2

theorem Node.postOrder_eq (node : Node α) :
    node.postOrder = node.children.flatMap Node.postOrder ++ [node] := by
  rw [Node.postOrder]
  simp only [List.flatMap_subtype, List.unattach_attach]

/-- The post-order of a tree lists the nodes of the tree. -/
theorem Node.perm_postOrder (node : Node α) : node.postOrder.Perm node.all := by
  have hchildren : ∀ child ∈ node.children, child.postOrder.Perm child.all := fun child hchild ↦
    have := Node.count_lt_of_mem_children hchild
    child.perm_postOrder
  calc
    node.postOrder = node.children.flatMap Node.postOrder ++ [node] := node.postOrder_eq
    List.Perm _ (node :: node.children.flatMap Node.postOrder) := List.perm_append_singleton _ _
    List.Perm _ (node :: node.children.flatMap Node.all) :=
      (List.Perm.flatMap_left _ hchildren).cons node
    _ = node.all := node.all_eq.symm
termination_by node.count

theorem Node.mem_postOrder_iff {node other : Node α} : other ∈ node.postOrder ↔ other ∈ node.all :=
  node.perm_postOrder.mem_iff

/-- What lies below a node stands together in the post-order of a tree. -/
theorem Node.postOrder_infix {root node : Node α} (h : node ∈ root.all) :
    node.postOrder <:+: root.postOrder := by
  rcases Node.mem_all_iff.1 h with rfl | ⟨child, hchild, hnode⟩
  · exact List.infix_rfl
  · have := Node.count_lt_of_mem_children hchild
    have hbelow : child.postOrder <:+: root.children.flatMap Node.postOrder :=
      List.infix_of_mem_flatten (List.mem_map_of_mem hchild)
    rw [root.postOrder_eq]
    exact ((Node.postOrder_infix hnode).trans hbelow).trans (List.prefix_append _ _).isInfix
termination_by root.count

/-- The direct parts of a node whose notes are changed are those before with their notes changed. -/
theorem Node.children_map (f : α → β) (node : Node α) :
    (node.map f).children = node.children.map (Node.map f) := by
  cases node with
  | script s =>
    simp only [Node.map, Script.map, Node.children, List.map_append, Option.toList_map,
      List.map_map]
    rfl
  | func g =>
    simp only [Node.map, FuncDef.map, Node.children, List.map_append, List.map_map]
    rfl
  | vars v =>
    simp only [Node.map, VarBlock.map, Node.children, List.map_map]
    rfl
  | block b =>
    cases b with
    | mk note stmts =>
      simp only [Node.map, Block.map, Node.children, Block.stmts, Stmt.mapAll_eq_map, List.map_map]
      rfl
  | decl d =>
    simp only [Node.map, VarDecl.map, Node.children, Option.toList_map, List.map_map]
    rfl
  | stmt s =>
    cases s with
    | branch _ _ _ whenFalse => cases whenFalse <;> rfl
    | ret _ value => cases value <;> rfl
    | _ => rfl
  | expr e =>
    cases e with
    | call note callee args =>
      simp only [Node.map, Expr.map, Node.children, Expr.children, Expr.mapAll_eq_map,
        List.map_map]
      rfl
    | _ => rfl
  | param | main | body => rfl

end ScriptAnalysis
