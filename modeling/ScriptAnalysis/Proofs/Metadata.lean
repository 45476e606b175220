import Mathlib
import ScriptAnalysis.Proofs.CursorReading
import ScriptAnalysis.Proofs.TokenRanges

/-!
# The metadata of nodes

In a tree that was read from a source every node has a range of tokens, and the numbers of the nodes
grow in post-order. The nodes use up all numbers but those that the blocks in braces pass over, so
the number of the root tells how many of both there are. The numbers are those of the counter that
runs along while the source is read.
-/

namespace ScriptAnalysis

/-- The blocks in braces that belong to a statement. -/
def Stmt.blocks {α : Type} : Stmt α → List (Block α)
  | .loop _ _ body => [body]
  | .branch _ _ whenTrue whenFalse => whenTrue :: whenFalse.toList
  | _ => []

/-- The blocks in braces right below a node. -/
def Node.ownBlocks {α : Type} : Node α → List (Block α)
  | .stmt s => s.blocks
  | _ => []

/-- The blocks in braces of a tree. -/
def Node.braceBlocks {α : Type} (root : Node α) : List (Block α) := root.all.flatMap Node.ownBlocks

theorem Node.countP_braces {α : Type} (node : Node α) :
    node.children.countP node.braces = node.ownBlocks.length := by
  cases node with
  | stmt s =>
    match s with
    | .assign .. | .loop .. | .print .. | .call .. => rfl
    | .branch _ _ _ none | .branch _ _ _ (some _) => rfl
    | .ret _ none | .ret _ (some _) => rfl
  | _ =>
    rw [Node.ownBlocks, List.length_nil, List.countP_eq_zero]
    · intro part _
      cases part <;> exact Bool.false_ne_true
    · exact nofun

mutual

/-- The numbers used are those of the nodes and those passed over. -/
theorem Node.Numbered.high_eq {low spare high : Nat} {node : Node Tag} :
    Node.Numbered low spare node high →
      high = low + spare + node.count + node.braceBlocks.length
  | .mk h _ => by
    have hparts := h.high_eq
    rw [node.countP_braces] at hparts
    rw [Node.count, Node.braceBlocks, node.all_eq, List.length_cons, List.flatMap_cons,
      List.length_append]
    omega

theorem Node.PartsNumbered.high_eq {parent : Node Tag} {parts : List (Node Tag)} {low high : Nat} :
    Node.PartsNumbered parent low parts high →
      high = low + parts.countP parent.braces + (parts.flatMap Node.all).length +
        ((parts.flatMap Node.all).flatMap Node.ownBlocks).length
  | .nil => rfl
  | @Node.PartsNumbered.cons _ part parts _ _ _ h hs => by
    have hpart := h.high_eq
    have hparts := hs.high_eq
    have hbraces : (parent.braces part).toNat = if parent.braces part then 1 else 0 := by
      cases parent.braces part <;> rfl
    rw [Node.count, Node.braceBlocks, hbraces] at hpart
    rw [List.countP_cons, List.flatMap_cons, List.flatMap_append, List.length_append,
      List.length_append]
    omega

end

theorem Node.lt_of_rising {low high : Nat} {root node child : Node Tag}
    (h : Rising low high (ids root.postOrder)) (hnode : node ∈ root.all)
    (hchild : child ∈ node.children) : child.note.id < node.note.id := by
  have hsub : (ids node.postOrder).Sublist (ids root.postOrder) :=
    (Node.postOrder_infix hnode).sublist.map _
  have hpairwise := h.pairwise.sublist hsub
  rw [node.postOrder_eq, ids_append, List.pairwise_append] at hpairwise
  have hmem : child ∈ node.children.flatMap Node.postOrder :=
    List.mem_flatMap.2 ⟨child, hchild, Node.mem_postOrder_iff.2 child.mem_all_self⟩
  exact hpairwise.2.2 _ (List.mem_map_of_mem hmem) _ (List.mem_map_of_mem List.mem_cons_self)

namespace Cursor

/-- Whether reading some tokens with a cursor gives a program or an expression as a tree. The
position and the counter begin at zero, and the counter ends at `last`. -/
inductive Reads (toks : List Token) (fuel last : Nat) : Node Tag → Prop
  | script {s : Script Tag} {pos : Nat} (h : script toks fuel ⟨0, 0⟩ = some (.ok s, ⟨pos, last⟩)) :
    Reads toks fuel last (.script s)
  | expr {e : Expr Tag} {pos : Nat}
    (h : wholeExpression toks fuel ⟨0, 0⟩ = some (.ok e, ⟨pos, last⟩)) :
    Reads toks fuel last (.expr e)

variable {source : String} {fuel last : Nat}

/-- The tokens of a source and its end. -/
def Tokens.ofSource (source : String) : Tokens :=
  ⟨Lexer.tokens source, Lexer.endMark source, Lexer.scan_kind_ne_eof, Lexer.endMark_kind source⟩

theorem script_run (hfuel : 16 * (Lexer.allTokens source).length ≤ fuel) :
    ∃ pos last, script (Lexer.allTokens source) fuel ⟨0, 0⟩ =
        some (Script.parse source, ⟨pos, last⟩) ∧
      ∀ s, Script.parse source = .ok s → last = s.note.id := by
  have hlist : 16 * (Tokens.ofSource source).list.length ≤ fuel := hfuel
  obtain ⟨⟨pos, last⟩, hrun, -, -, hlast⟩ := finishes_script hlist
  rw [Tokens.before_body] at hrun
  refine ⟨pos, last, hrun, ?_⟩
  intro s hs
  obtain ⟨tree, htree, rfl⟩ := map_eq_ok_iff.1 hs
  exact hlast tree htree

theorem wholeExpression_run (hfuel : 16 * (Lexer.allTokens source).length ≤ fuel) :
    ∃ pos last, wholeExpression (Lexer.allTokens source) fuel ⟨0, 0⟩ =
        some (Expr.parse source, ⟨pos, last⟩) ∧
      ∀ e, Expr.parse source = .ok e → last = e.note.id := by
  have hlist : 16 * (Tokens.ofSource source).list.length ≤ fuel := hfuel
  obtain ⟨⟨pos, last⟩, hrun, -, -, hlast⟩ := finishes_wholeExpression hlist
  rw [Tokens.before_body] at hrun
  refine ⟨pos, last, hrun, ?_⟩
  intro e he
  obtain ⟨tree, htree, rfl⟩ := map_eq_ok_iff.1 he
  exact (hlast tree htree).trans (tree.numbered 0).id_eq.symm

/-- The cursor gives the tree that a source is read as, and the counter ends at the number of the
root. -/
theorem reads_iff (hfuel : 16 * (Lexer.allTokens source).length ≤ fuel) {root : Node Tag} :
    Reads (Lexer.allTokens source) fuel last root ↔ root.ReadFrom source ∧ last = root.note.id := by
  obtain ⟨pos, lastScript, hscript, hscriptId⟩ := script_run hfuel
  obtain ⟨pos', lastExpr, hexpr, hexprId⟩ := wholeExpression_run hfuel
  constructor
  · intro h
    cases h with
    | @script s _ h =>
      obtain ⟨hs, -, rfl⟩ : Script.parse source = .ok s ∧ pos = _ ∧ lastScript = last := by
        simpa using hscript.symm.trans h
      exact ⟨.script hs, hscriptId s hs⟩
    | @expr e _ h =>
      obtain ⟨he, -, rfl⟩ : Expr.parse source = .ok e ∧ pos' = _ ∧ lastExpr = last := by
        simpa using hexpr.symm.trans h
      exact ⟨.expr he, hexprId e he⟩
  · rintro ⟨h, rfl⟩
    cases h with
    | @script s hs =>
      rw [hs, hscriptId s hs] at hscript
      exact .script hscript
    | @expr e he =>
      rw [he, hexprId e he] at hexpr
      exact .expr hexpr

end Cursor

/-- A tree that a source is read as is the one that the cursor gives, with a counter that begins at
zero and gives a number to each node when it is complete. Its nodes have ranges of the tokens: a
node has the text and the place of the tokens in its range, the root has all tokens but the mark at
the end, and the direct parts of a node stand in order inside it. The numbers of the nodes are
positive and grow in post-order, so each belongs to one node and a node has a greater one than its
parts. The root has the last number, which tells how many nodes and blocks in braces there are. -/
theorem metadata_of_nodes {source : String} {root : Node Tag} {fuel : Nat}
    (hfuel : 16 * (Lexer.allTokens source).length ≤ fuel) :
    (root.ReadFrom source ↔ ∃ last, Cursor.Reads (Lexer.allTokens source) fuel last root) ∧
    ∀ last, Cursor.Reads (Lexer.allTokens source) fuel last root →
      (∃ range : Nat → TokenRange, range root.note.id = ⟨0, (Lexer.tokens source).length⟩ ∧
        ∀ node ∈ root.all,
          node.note.extent.OfRange (Lexer.allTokens source) (range node.note.id) ∧
          (range node.note.id).Holds (node.children.map fun child ↦ range child.note.id)) ∧
      (∀ node ∈ root.all, 0 < node.note.id) ∧
      (root.postOrder.map (·.note.id)).Pairwise (· < ·) ∧
      (root.all.map (·.note.id)).Nodup ∧
      (∀ node ∈ root.all, ∀ child ∈ node.children, child.note.id < node.note.id) ∧
      root.note.id = last ∧
      last = root.count + root.braceBlocks.length := by
  constructor
  · simp only [Cursor.reads_iff hfuel, exists_and_left, exists_eq, and_true]
  intro last hreads
  obtain ⟨h, rfl⟩ := (Cursor.reads_iff hfuel).1 hreads
  have hnumbered := h.numbered
  have hrising := hnumbered.rising
  refine ⟨h.readAt.exists_ranged h.nodup_ids, ?_, hrising.pairwise, h.nodup_ids, ?_, rfl, ?_⟩
  · intro node hnode
    exact (hrising.within _ (List.mem_map_of_mem (Node.mem_postOrder_iff.2 hnode))).1
  · intro node hnode child hchild
    exact Node.lt_of_rising hrising hnode hchild
  · have hcount := hnumbered.high_eq
    omega

/-- A program with three blocks in braces and eleven nodes, some of them without tokens. -/
theorem metadata_of_nodes_nested :
    ∃ s, Script.parse "if x{}else{while y{}}" = .ok s ∧
      Cursor.Reads (Lexer.allTokens "if x{}else{while y{}}") 192 14 (.script s) ∧
      ((Node.script s).postOrder.map (·.note.id)).Pairwise (· < ·) ∧
      ∃ range : Nat → TokenRange, range s.note.id = ⟨0, 11⟩ ∧
        ∀ node ∈ (Node.script s).all,
          node.note.extent.OfRange (Lexer.allTokens "if x{}else{while y{}}")
            (range node.note.id) ∧
          (range node.note.id).Holds (node.children.map fun child ↦ range child.note.id) := by
  obtain ⟨s, hs, hcount⟩ : ∃ s, Script.parse "if x{}else{while y{}}" = .ok s ∧
      (Node.script s).count + (Node.script s).braceBlocks.length = 14 := by
    refine ⟨?_, ?parse, ?count⟩
    case parse =>
      cbv
      rfl
    case count => cbv
  have htokens : (Lexer.tokens "if x{}else{while y{}}").length = 11 := by cbv
  have hfuel : 16 * (Lexer.allTokens "if x{}else{while y{}}").length ≤ 192 := by
    rw [Lexer.allTokens, List.length_append, htokens]
    decide
  obtain ⟨hiff, hmeta⟩ := @metadata_of_nodes _ (.script s) _ hfuel
  obtain ⟨last, hreads⟩ := hiff.1 (.script hs)
  obtain ⟨⟨range, hroot, hrange⟩, -, hpairwise, -, -, -, hlast⟩ := hmeta last hreads
  rw [hlast.trans hcount] at hreads
  rw [htokens] at hroot
  exact ⟨s, hs, hreads, hpairwise, range, hroot, hrange⟩

end ScriptAnalysis
