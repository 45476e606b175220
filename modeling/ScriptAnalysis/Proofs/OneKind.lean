import ScriptAnalysis.Proofs.Insertion
import ScriptAnalysis.Proofs.Printed
import ScriptAnalysis.Proofs.Sessions

/-!
# Sources of one kind

A source may hold functions, declarations or statements alone. What it holds shows in the rows that
its tokens fall into, does not depend on where the source begins, and is the same for pieces on
lines of their own if it is the same for each of them.
-/

namespace ScriptAnalysis

open Lexer (scan tokens)

namespace Script

section

variable {α β : Type}

def vars (s : Script α) : List (VarDecl α) := (s.main.map fun main ↦ main.vars.decls).getD []

def stmts (s : Script α) : List (Stmt α) := (s.main.map fun main ↦ main.block.stmts).getD []

theorem vars_map (f : α → β) (s : Script α) : (s.map f).vars = s.vars.map (VarDecl.map f) := by
  unfold vars Script.map
  cases s.main <;> rfl

theorem stmts_map (f : α → β) (s : Script α) : (s.map f).stmts = s.stmts.map (Stmt.map f) := by
  have hblock (b : Block α) : (b.map f).stmts = b.stmts.map (Stmt.map f) := by
    cases b with
    | mk note ss => exact Stmt.mapAll_eq_map f ss
  unfold stmts Script.map
  cases s.main with
  | none => rfl
  | some main => exact hblock main.block

end

end Script

namespace Grammar

theorem Functions.eq_nil_iff {ts : List Token} {fs : List (FuncDef Extent)}
    (h : Functions ts fs) : fs = [] ↔ ts = [] := by
  cases h with
  | nil => simp
  | cons h hs =>
    obtain ⟨word, head, l, inside, r, next, vars, block, rfl, -⟩ := h.exists_head
    simp

theorem Declarations.eq_nil_iff {ts : List Token} {ds : List (VarDecl Extent)}
    (h : Declarations ts ds) : ds = [] ↔ ts = [] := by
  cases h with
  | nil => simp
  | cons h hs =>
    obtain ⟨word, more, rfl, -⟩ := h.lacks
    simp

theorem Statement.ne_nil {ts : List Token} {next : Token} {s : Stmt Extent}
    (h : Statement ts next s) : ts ≠ [] := by
  cases h with
  | call h =>
    cases h
    simp
  | _ => simp

theorem Statements.eq_nil_iff {ts : List Token} {next : Token} {ss : List (Stmt Extent)}
    (h : Statements ts next ss) : ss = [] ↔ ts = [] := by
  cases h with
  | nil => simp
  | cons h hs => simp [h.ne_nil]

/-- Whether rows of tokens are the functions, the declarations and the statements of a source. -/
structure Rows (source : String) (fts dts sts : List Token) : Prop where
  tokens : Lexer.tokens source = fts ++ (dts ++ sts)
  funcs : ∃ fs, Functions fts fs
  decls : ∃ ds, Declarations dts ds
  stmts : ∃ ss, Statements sts (Lexer.endMark source) ss

/-- The rows of a source tell which parts of a program it has. -/
theorem exists_parse_iff_rows {source : String} {P : Prop → Prop → Prop → Prop} :
    (∃ script, Script.parse source = .ok script ∧
        P (script.funcs = []) (script.vars = []) (script.stmts = [])) ↔
      ∃ fts dts sts, Rows source fts dts sts ∧ P (fts = []) (dts = []) (sts = []) := by
  have hsame {script : Script Tag} {fts dts sts : List Token}
      (hf : Functions fts (script.map Tag.extent).funcs)
      (hd : Declarations dts (script.map Tag.extent).vars)
      (hs : Statements sts (Lexer.endMark source) (script.map Tag.extent).stmts) :
      P (script.funcs = []) (script.vars = []) (script.stmts = []) =
        P (fts = []) (dts = []) (sts = []) := by
    rw [← hf.eq_nil_iff, ← hd.eq_nil_iff, ← hs.eq_nil_iff, Script.vars_map, Script.stmts_map,
      Script.map, List.map_eq_nil_iff, List.map_eq_nil_iff, List.map_eq_nil_iff]
  constructor
  · rintro ⟨script, hparse, hP⟩
    obtain ⟨fts, dts, sts, main, htokens, hf, hmain, hd, hs⟩ :=
      (Script.program_of_parse hparse).exists_parts
    have hvars : (script.map Tag.extent).vars = main.vars.decls := by rw [Script.vars, hmain]; rfl
    have hstmts : (script.map Tag.extent).stmts = main.block.stmts := by
      rw [Script.stmts, hmain]
      rfl
    rw [← hvars] at hd
    rw [← hstmts] at hs
    rw [hsame hf hd hs] at hP
    exact ⟨fts, dts, sts, ⟨htokens, ⟨_, hf⟩, ⟨_, hd⟩, ⟨_, hs⟩⟩, hP⟩
  · rintro ⟨fts, dts, sts, ⟨htokens, ⟨fs, hf⟩, ⟨ds, hd⟩, ⟨ss, hs⟩⟩, hP⟩
    have htree := Program.mk hf (.mk hd hs) (Lexer.endMark_kind source)
    rw [← htokens] at htree
    refine ⟨_, Script.parse_eq_ok_iff.2 ⟨_, htree, rfl⟩, ?_⟩
    rw [@hsame _ fts dts sts]
    · exact hP
    · rw [Script.map_number]
      exact hf
    · rw [Script.map_number]
      exact hd
    · rw [Script.map_number]
      exact hs

end Grammar

def OnlyFunctions (source : String) : Prop :=
  ∃ script, Script.parse source = .ok script ∧ script.vars = [] ∧ script.stmts = []

def OnlyDeclarations (source : String) : Prop :=
  ∃ script, Script.parse source = .ok script ∧ script.funcs = [] ∧ script.stmts = []

def OnlyStatements (source : String) : Prop :=
  ∃ script, Script.parse source = .ok script ∧ script.funcs = [] ∧ script.vars = []

/-- Whether a source holds functions and declarations alone. -/
def OnlyDefinitions (source : String) : Prop :=
  ∃ script, Script.parse source = .ok script ∧ script.stmts = []

section

variable {source : String}

theorem onlyFunctions_iff : OnlyFunctions source ↔ ∃ fs, Grammar.Functions (tokens source) fs := by
  refine (@Grammar.exists_parse_iff_rows source fun _ v s ↦ v ∧ s).trans ?_
  constructor
  · rintro ⟨fts, _, _, h, rfl, rfl⟩
    rw [h.tokens, List.append_nil, List.append_nil]
    exact h.funcs
  · intro h
    exact ⟨tokens source, [], [], ⟨by simp, h, ⟨[], .nil⟩, ⟨[], .nil⟩⟩, rfl, rfl⟩

theorem onlyDeclarations_iff :
    OnlyDeclarations source ↔ ∃ ds, Grammar.Declarations (tokens source) ds := by
  refine (@Grammar.exists_parse_iff_rows source fun f _ s ↦ f ∧ s).trans ?_
  constructor
  · rintro ⟨_, dts, _, h, rfl, rfl⟩
    rw [h.tokens, List.nil_append, List.append_nil]
    exact h.decls
  · intro h
    exact ⟨[], tokens source, [], ⟨by simp, ⟨[], .nil⟩, h, ⟨[], .nil⟩⟩, rfl, rfl⟩

theorem onlyStatements_iff :
    OnlyStatements source ↔
      ∃ ss, Grammar.Statements (tokens source) (Lexer.endMark source) ss := by
  refine (@Grammar.exists_parse_iff_rows source fun f v _ ↦ f ∧ v).trans ?_
  constructor
  · rintro ⟨_, _, sts, h, rfl, rfl⟩
    rw [h.tokens, List.nil_append, List.nil_append]
    exact h.stmts
  · intro h
    exact ⟨[], [], tokens source, ⟨by simp, ⟨[], .nil⟩, ⟨[], .nil⟩, h⟩, rfl, rfl⟩

theorem onlyDefinitions_iff :
    OnlyDefinitions source ↔ ∃ fts dts fs ds, tokens source = fts ++ dts ∧
      Grammar.Functions fts fs ∧ Grammar.Declarations dts ds := by
  refine (@Grammar.exists_parse_iff_rows source fun _ _ s ↦ s).trans ?_
  constructor
  · rintro ⟨fts, dts, _, ⟨htokens, ⟨fs, hf⟩, ⟨ds, hd⟩, -⟩, rfl⟩
    rw [List.append_nil] at htokens
    exact ⟨fts, dts, fs, ds, htokens, hf, hd⟩
  · intro ⟨fts, dts, fs, ds, htokens, hf, hd⟩
    exact ⟨fts, dts, [], ⟨by rw [htokens, List.append_nil], ⟨fs, hf⟩, ⟨ds, hd⟩, ⟨[], .nil⟩⟩, rfl⟩

end

theorem Lexer.exists_shifted_scan (here here' : Nat × Nat) (text : List Char) :
    ∃ ps, ps.map Prod.fst = scan here text ∧ ps.map Prod.snd = scan here' text ∧
      Grammar.Shifted ps := by
  obtain ⟨ps, hfst, hsnd, hmatched, hlines⟩ := exists_pairs_scan here here' text
  refine ⟨ps, hfst, hsnd, hmatched, ?_⟩
  intro p hp q hq
  have hline := hlines p hp
  have hline' := hlines q hq
  omega

namespace Grammar

section

variable {here : Nat × Nat} {text : List Char}

theorem Functions.exists_scan {fs : List (FuncDef Extent)} (h : Functions (scan here text) fs)
    (here' : Nat × Nat) : ∃ fs', Functions (scan here' text) fs' := by
  obtain ⟨ps, hfst, hsnd, hps⟩ := Lexer.exists_shifted_scan here here' text
  obtain ⟨fs', h', -⟩ := h.placed hps hfst
  rw [hsnd] at h'
  exact ⟨fs', h'⟩

theorem Declarations.exists_scan {ds : List (VarDecl Extent)}
    (h : Declarations (scan here text) ds) (here' : Nat × Nat) :
    ∃ ds', Declarations (scan here' text) ds' := by
  obtain ⟨ps, hfst, hsnd, hps⟩ := Lexer.exists_shifted_scan here here' text
  obtain ⟨ds', h', -⟩ := h.placed hps.matched hfst
  rw [hsnd] at h'
  exact ⟨ds', h'⟩

theorem Statements.exists_scan {ss : List (Stmt Extent)} {stop stop' : Token}
    (h : Statements (scan here text) stop ss) (hstop : stop.kind = .eof)
    (hstop' : stop'.kind = .eof) (here' : Nat × Nat) :
    ∃ ss', Statements (scan here' text) stop' ss' ∧
      Stmt.mapAll (fun _ ↦ ()) ss' = Stmt.mapAll (fun _ ↦ ()) ss := by
  obtain ⟨ps, hfst, hsnd, hps⟩ := Lexer.exists_shifted_scan here here' text
  have halike : FollowAlike ps stop stop' :=
    .of_not_startsExpr (by rw [hstop]; rfl) (by rw [hstop']; rfl) ps
  obtain ⟨ss', h', hss⟩ := h.placed hps halike hfst
  rw [hsnd] at h'
  exact ⟨ss', h', hss⟩

end

section

variable {ts us : List Token}

theorem Functions.append {fs fs' : List (FuncDef Extent)} (h : Functions ts fs)
    (h' : Functions us fs') : Functions (ts ++ us) (fs ++ fs') := by
  induction h with
  | nil => exact h'
  | cons hf hs ih =>
    rw [List.append_assoc]
    exact .cons hf ih

theorem Declarations.append {ds ds' : List (VarDecl Extent)} (h : Declarations ts ds)
    (h' : Declarations us ds') : Declarations (ts ++ us) (ds ++ ds') := by
  induction h with
  | nil => exact h'
  | cons hd hs ih =>
    rw [List.append_assoc]
    exact .cons hd ih

/-- What comes on a later line is no value of a `return` before it. -/
theorem Statements.append_lines {ss ss' : List (Stmt Extent)} {stop stop' : Token}
    (h : Statements ts stop ss) (hstop : stop.kind = .eof) (h' : Statements us stop' ss')
    (hstop' : stop'.kind = .eof) (hlines : ∀ t ∈ ts, ∀ u ∈ us, t.line < u.line) :
    ∃ both, Statements (ts ++ us) stop' both := by
  have halike : FollowAlike (ts.map fun t ↦ (t, t)) stop (us.headD stop') := by
    intro p hp
    obtain ⟨t, ht, rfl⟩ := List.mem_map.1 hp
    cases us with
    | nil => simp [TakesValue, hstop, hstop', Parser.startsExpr]
    | cons u us =>
      have hlater := hlines t ht u List.mem_cons_self
      have hne : u.line ≠ t.line := by omega
      simp [TakesValue, hstop, hne, Parser.startsExpr]
  have hshifted : Shifted (ts.map fun t ↦ (t, t)) := by
    constructor <;> simp [Matched]
  obtain ⟨first, hfirst, -⟩ := h.placed hshifted halike (by simp [Function.comp_def])
  simp only [List.map_map, Function.comp_def, List.map_id'] at hfirst
  exact ⟨_, h'.append hfirst⟩

end

end Grammar

section

variable {pieces : List String}

theorem onlyFunctions_intercalate (h : ∀ piece ∈ pieces, OnlyFunctions piece) :
    OnlyFunctions ("\n".intercalate pieces) := by
  simp only [onlyFunctions_iff] at h ⊢
  apply Lexer.tokens_intercalate_induction (R := fun ts ↦ ∃ fs, Grammar.Functions ts fs) _ _ _ h
  · exact ⟨[], .nil⟩
  · intro here here' text ⟨fs, hf⟩
    exact hf.exists_scan here'
  · intro ts us ⟨fs, hf⟩ ⟨fs', hf'⟩ _
    exact ⟨_, hf.append hf'⟩

theorem onlyDeclarations_intercalate (h : ∀ piece ∈ pieces, OnlyDeclarations piece) :
    OnlyDeclarations ("\n".intercalate pieces) := by
  simp only [onlyDeclarations_iff] at h ⊢
  apply Lexer.tokens_intercalate_induction (R := fun ts ↦ ∃ ds, Grammar.Declarations ts ds) _ _ _ h
  · exact ⟨[], .nil⟩
  · intro here here' text ⟨ds, hd⟩
    exact hd.exists_scan here'
  · intro ts us ⟨ds, hd⟩ ⟨ds', hd'⟩ _
    exact ⟨_, hd.append hd'⟩

theorem onlyStatements_intercalate (h : ∀ piece ∈ pieces, OnlyStatements piece) :
    OnlyStatements ("\n".intercalate pieces) := by
  -- The mark at the end of a piece stands for that at the end of any other.
  have hrow : ∃ stop ss, stop.kind = .eof ∧
      Grammar.Statements (tokens ("\n".intercalate pieces)) stop ss := by
    apply Lexer.tokens_intercalate_induction
      (R := fun ts ↦ ∃ stop ss, stop.kind = .eof ∧ Grammar.Statements ts stop ss)
    · exact ⟨Lexer.endMark "", [], rfl, .nil⟩
    · intro here here' text ⟨stop, ss, hstop, hs⟩
      obtain ⟨ss', hs', -⟩ := hs.exists_scan hstop hstop here'
      exact ⟨stop, ss', hstop, hs'⟩
    · intro ts us ⟨stop, ss, hstop, hs⟩ ⟨stop', ss', hstop', hs'⟩ hlines
      obtain ⟨both, hboth⟩ := hs.append_lines hstop hs' hstop' hlines
      exact ⟨stop', both, hstop', hboth⟩
    · intro piece hpiece
      obtain ⟨ss, hs⟩ := onlyStatements_iff.1 (h piece hpiece)
      exact ⟨_, ss, rfl, hs⟩
  obtain ⟨stop, ss, hstop, hs⟩ := hrow
  exact onlyStatements_iff.2 ⟨ss, hs.of_next rfl⟩

end

end ScriptAnalysis
