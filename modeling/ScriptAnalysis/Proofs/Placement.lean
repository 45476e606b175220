import ScriptAnalysis.Proofs.Grammar
import ScriptAnalysis.Proofs.Shape

/-!
# Trees do not depend on where their tokens stand

Tokens of the same kinds and lexemes are derived with trees of the same shape and the same texts,
whatever their places are. Only after the word `return` it matters whether the next token stands on
its line. Two rows of tokens are compared as one row of pairs.
-/

namespace ScriptAnalysis

/-- What a token is, wherever it stands. -/
def Token.bare (t : Token) : Kind × String := (t.kind, t.lexeme)

/-- Whether the two tokens of each pair are the same but for their places. -/
def Matched (ps : List (Token × Token)) : Prop := ∀ p ∈ ps, p.1.bare = p.2.bare

namespace Matched

variable {ps qs : List (Token × Token)} {p : Token × Token}

theorem kind (h : Matched ps) (hp : p ∈ ps) : p.2.kind = p.1.kind :=
  (congrArg Prod.fst (h p hp)).symm

theorem lexeme (h : Matched ps) (hp : p ∈ ps) : p.2.lexeme = p.1.lexeme :=
  (congrArg Prod.snd (h p hp)).symm

theorem left (h : Matched (ps ++ qs)) : Matched ps := fun p hp ↦ h p (List.mem_append_left _ hp)

theorem right (h : Matched (ps ++ qs)) : Matched qs := fun p hp ↦ h p (List.mem_append_right _ hp)

theorem tail (h : Matched (p :: ps)) : Matched ps := fun q hq ↦ h q (List.mem_cons_of_mem _ hq)

theorem head_kind (h : Matched (p :: ps)) {kind : Kind} (hkind : p.1.kind = kind) :
    p.2.kind = kind :=
  (h.kind List.mem_cons_self).trans hkind

theorem head_lexeme (h : Matched (p :: ps)) : p.2.lexeme = p.1.lexeme := h.lexeme List.mem_cons_self

/-- Rows that are alike have the same text. -/
theorem join_eq (h : Matched ps) :
    String.join ((ps.map Prod.snd).map Token.lexeme) =
      String.join ((ps.map Prod.fst).map Token.lexeme) := by
  rw [List.map_map, List.map_map]
  exact congrArg String.join (List.map_congr_left fun p hp ↦ h.lexeme hp)

/-- Rows with the same tokens are alike. -/
theorem exists_pairs {ts us : List Token} (h : ts.map Token.bare = us.map Token.bare) :
    ∃ ps, ps.map Prod.fst = ts ∧ ps.map Prod.snd = us ∧ Matched ps := by
  induction ts generalizing us with
  | nil =>
    obtain rfl : us = [] := List.map_eq_nil_iff.1 h.symm
    exact ⟨[], rfl, rfl, by simp [Matched]⟩
  | cons t ts ih =>
    obtain ⟨u, us, rfl, hu, hus⟩ := List.map_eq_cons_iff.1 h.symm
    obtain ⟨ps, rfl, rfl, hps⟩ := ih hus.symm
    exact ⟨(t, u) :: ps, rfl, rfl, List.forall_mem_cons.2 ⟨hu.symm, hps⟩⟩

end Matched

namespace Grammar

open ScriptAnalysis.Parser (startsExpr)

mutual

theorem Expression.placed {level : Nat} {ts : List Token} {e : Expr Extent}
    {ps : List (Token × Token)} (hps : Matched ps) :
    Expression level ts e → ps.map Prod.fst = ts →
      ∃ e', Expression level (ps.map Prod.snd) e' ∧ e'.map Extent.text = e.map Extent.text
  | .unary h, hts => by
    obtain ⟨e', h', he⟩ := h.placed hps hts
    exact ⟨e', .unary h', he⟩
  | .operand h, hts => by
    obtain ⟨e', h', he⟩ := h.placed hps hts
    exact ⟨e', .operand h', he⟩
  | .operation hl hop hlevel hr, hts => by
    have htext := hps.join_eq
    rw [hts] at htext
    obtain ⟨ls, others, rfl, hls, hothers⟩ := List.map_eq_append_iff.1 hts
    obtain ⟨p, rs, rfl, rfl, hrs⟩ := List.map_eq_cons_iff.1 hothers
    obtain ⟨left, hl', hleft⟩ := hl.placed hps.left hls
    obtain ⟨right, hr', hright⟩ := hr.placed hps.right.tail hrs
    rw [List.map_append, List.map_cons] at htext ⊢
    rw [← hps.right.head_kind rfl] at hop
    refine ⟨_, .operation hl' hop hlevel hr', ?_⟩
    rw [Expr.map, Expr.map, hleft, hright, Extent.spanning, Extent.spanning, htext]

theorem Unary.placed {ts : List Token} {e : Expr Extent} {ps : List (Token × Token)}
    (hps : Matched ps) :
    Unary ts e → ps.map Prod.fst = ts →
      ∃ e', Unary (ps.map Prod.snd) e' ∧ e'.map Extent.text = e.map Extent.text
  | .negate ht h, hts => by
    have htext := hps.join_eq
    rw [hts] at htext
    obtain ⟨p, qs, rfl, rfl, hqs⟩ := List.map_eq_cons_iff.1 hts
    obtain ⟨e', h', he⟩ := h.placed hps.tail hqs
    rw [List.map_cons] at htext ⊢
    rw [← hps.head_kind rfl] at ht
    refine ⟨_, .negate ht h', ?_⟩
    rw [Expr.map, Expr.map, he, Extent.spanning, Extent.spanning, htext, hps.head_lexeme]
  | .primary h, hts => by
    obtain ⟨e', h', he⟩ := h.placed hps hts
    exact ⟨e', .primary h', he⟩

theorem Primary.placed {ts : List Token} {e : Expr Extent} {ps : List (Token × Token)}
    (hps : Matched ps) :
    Primary ts e → ps.map Prod.fst = ts →
      ∃ e', Primary (ps.map Prod.snd) e' ∧ e'.map Extent.text = e.map Extent.text
  | .int ht, hts => by
    obtain ⟨p, rfl, rfl⟩ := List.map_eq_singleton_iff.1 hts
    refine ⟨_, .int (hps.head_kind ht), ?_⟩
    simp only [Expr.map, Extent.spanning, List.map_cons, List.map_nil, hps.head_lexeme]
  | .string ht, hts => by
    obtain ⟨p, rfl, rfl⟩ := List.map_eq_singleton_iff.1 hts
    refine ⟨_, .string (hps.head_kind ht), ?_⟩
    simp only [Expr.map, Extent.spanning, List.map_cons, List.map_nil, hps.head_lexeme]
  | .true ht, hts => by
    obtain ⟨p, rfl, rfl⟩ := List.map_eq_singleton_iff.1 hts
    refine ⟨_, .true (hps.head_kind ht), ?_⟩
    simp only [Expr.map, Extent.spanning, List.map_cons, List.map_nil, hps.head_lexeme]
  | .false ht, hts => by
    obtain ⟨p, rfl, rfl⟩ := List.map_eq_singleton_iff.1 hts
    refine ⟨_, .false (hps.head_kind ht), ?_⟩
    simp only [Expr.map, Extent.spanning, List.map_cons, List.map_nil, hps.head_lexeme]
  | .ident ht, hts => by
    obtain ⟨p, rfl, rfl⟩ := List.map_eq_singleton_iff.1 hts
    refine ⟨_, .ident (hps.head_kind ht), ?_⟩
    simp only [Expr.map, Extent.spanning, List.map_cons, List.map_nil, hps.head_lexeme]
  | .call h, hts => by
    obtain ⟨note', args', h', hnote, hargs⟩ := h.placed hps hts
    refine ⟨_, .call h', ?_⟩
    rw [Expr.map, Expr.map, hnote, hargs]
  | .parens hl h hr, hts => by
    have htext := hps.join_eq
    rw [hts] at htext
    obtain ⟨p, others, rfl, rfl, hothers⟩ := List.map_eq_cons_iff.1 hts
    obtain ⟨qs, last, rfl, hqs, hlast⟩ := List.map_eq_append_iff.1 hothers
    obtain ⟨q, rfl, rfl⟩ := List.map_eq_singleton_iff.1 hlast
    obtain ⟨e', h', he⟩ := h.placed hps.tail.left hqs
    rw [List.map_cons, List.map_append] at htext ⊢
    refine ⟨_, .parens (hps.head_kind hl) h' (hps.tail.right.head_kind hr), ?_⟩
    rw [Expr.map, Expr.map, he, Extent.spanning, Extent.spanning, ← htext]
    rfl

theorem Call.placed {ts : List Token} {note : Extent} {callee : String} {args : List (Expr Extent)}
    {ps : List (Token × Token)} (hps : Matched ps) :
    Call ts note callee args → ps.map Prod.fst = ts →
      ∃ note' args', Call (ps.map Prod.snd) note' callee args' ∧ note'.text = note.text ∧
        Expr.mapAll Extent.text args' = Expr.mapAll Extent.text args
  | .mk hn hl h, hts => by
    have htext := hps.join_eq
    rw [hts] at htext
    obtain ⟨p, others, rfl, rfl, hothers⟩ := List.map_eq_cons_iff.1 hts
    obtain ⟨q, qs, rfl, rfl, hqs⟩ := List.map_eq_cons_iff.1 hothers
    obtain ⟨args', h', hargs⟩ := h.placed hps.tail.tail hqs
    rw [← hps.head_lexeme]
    exact ⟨_, args', .mk (hps.head_kind hn) (hps.tail.head_kind hl) h', htext, hargs⟩

theorem Arguments.placed {ts : List Token} {args : List (Expr Extent)}
    {ps : List (Token × Token)} (hps : Matched ps) :
    Arguments ts args → ps.map Prod.fst = ts →
      ∃ args', Arguments (ps.map Prod.snd) args' ∧
        Expr.mapAll Extent.text args' = Expr.mapAll Extent.text args
  | .none hr, hts => by
    obtain ⟨p, rfl, rfl⟩ := List.map_eq_singleton_iff.1 hts
    exact ⟨[], .none (hps.head_kind hr), rfl⟩
  | .some h, hts => by
    obtain ⟨args', h', hargs⟩ := h.placed hps hts
    exact ⟨args', .some h', hargs⟩

theorem ArgumentList.placed {ts : List Token} {args : List (Expr Extent)}
    {ps : List (Token × Token)} (hps : Matched ps) :
    ArgumentList ts args → ps.map Prod.fst = ts →
      ∃ args', ArgumentList (ps.map Prod.snd) args' ∧
        Expr.mapAll Extent.text args' = Expr.mapAll Extent.text args
  | .last h hr, hts => by
    obtain ⟨qs, last, rfl, hqs, hlast⟩ := List.map_eq_append_iff.1 hts
    obtain ⟨q, rfl, rfl⟩ := List.map_eq_singleton_iff.1 hlast
    obtain ⟨e', h', he⟩ := h.placed hps.left hqs
    rw [List.map_append]
    exact ⟨_, .last h' (hps.right.head_kind hr), congrArg ([·]) he⟩
  | .more h hc hs, hts => by
    obtain ⟨qs, others, rfl, hqs, hothers⟩ := List.map_eq_append_iff.1 hts
    obtain ⟨q, rs, rfl, rfl, hrs⟩ := List.map_eq_cons_iff.1 hothers
    obtain ⟨e', h', he⟩ := h.placed hps.left hqs
    obtain ⟨args', hs', hargs⟩ := hs.placed hps.right.tail hrs
    rw [List.map_append, List.map_cons]
    refine ⟨_, .more h' (hps.right.head_kind hc) hs', ?_⟩
    rw [Expr.mapAll, Expr.mapAll, he, hargs]

end

/-- Whether the tokens of each pair are the same but for their places, and stand on the same lines
as others on one side just if they do on the other. -/
structure Shifted (ps : List (Token × Token)) : Prop where
  matched : Matched ps
  lines : ∀ p ∈ ps, ∀ q ∈ ps, p.1.line = q.1.line ↔ p.2.line = q.2.line

namespace Shifted

variable {ps qs : List (Token × Token)} {p q : Token × Token}

theorem mono (h : Shifted ps) (hsub : ∀ p ∈ qs, p ∈ ps) : Shifted qs :=
  ⟨fun p hp ↦ h.matched p (hsub p hp), fun p hp q hq ↦ h.lines p (hsub p hp) q (hsub q hq)⟩

theorem left (h : Shifted (ps ++ qs)) : Shifted ps := h.mono fun _ hp ↦ List.mem_append_left _ hp

theorem right (h : Shifted (ps ++ qs)) : Shifted qs := h.mono fun _ hp ↦ List.mem_append_right _ hp

theorem tail (h : Shifted (p :: ps)) : Shifted ps := h.mono fun _ hp ↦ List.mem_cons_of_mem _ hp

theorem takesValue_iff (h : Shifted ps) (hp : p ∈ ps) (hq : q ∈ ps) :
    TakesValue p.1 q.1 ↔ TakesValue p.2 q.2 := by
  unfold TakesValue
  rw [h.matched.kind hq, h.lines q hq p hp]

end Shifted

/-- Whether two tokens that come next make the same difference to the words before them. -/
def FollowAlike (ps : List (Token × Token)) (next next' : Token) : Prop :=
  ∀ p ∈ ps, TakesValue p.1 next ↔ TakesValue p.2 next'

theorem FollowAlike.mono {ps qs : List (Token × Token)} {next next' : Token}
    (h : FollowAlike ps next next') (hsub : ∀ p ∈ qs, p ∈ ps) : FollowAlike qs next next' :=
  fun p hp ↦ h p (hsub p hp)

theorem FollowAlike.of_not_startsExpr {next next' : Token} (h : startsExpr next.kind = false)
    (h' : startsExpr next'.kind = false) (ps : List (Token × Token)) :
    FollowAlike ps next next' := by
  intro p _
  simp [TakesValue, h, h']

theorem Expression.placed_shape {ts : List Token} {e : Expr Extent} {ps : List (Token × Token)}
    (h : Expression 3 ts e) (hps : Matched ps) (hts : ps.map Prod.fst = ts) :
    ∃ e', Expression 3 (ps.map Prod.snd) e' ∧ e'.map (fun _ ↦ ()) = e.map fun _ ↦ () := by
  obtain ⟨e', h', he⟩ := h.placed hps hts
  refine ⟨e', h', ?_⟩
  have hshape := congrArg (Expr.map fun _ ↦ ()) he
  rwa [Expr.map_map, Expr.map_map] at hshape

mutual

theorem Statement.placed {ts : List Token} {next next' : Token} {s : Stmt Extent}
    {ps : List (Token × Token)} (hps : Shifted ps) (hnext : FollowAlike ps next next') :
    Statement ts next s → ps.map Prod.fst = ts →
      ∃ s', Statement (ps.map Prod.snd) next' s' ∧ s'.map (fun _ ↦ ()) = s.map fun _ ↦ ()
  | .assign hn heq h, hts => by
    obtain ⟨p, others, rfl, rfl, hothers⟩ := List.map_eq_cons_iff.1 hts
    obtain ⟨q, qs, rfl, rfl, hqs⟩ := List.map_eq_cons_iff.1 hothers
    obtain ⟨e', h', he⟩ := h.placed_shape hps.tail.tail.matched hqs
    have hq := hps.tail.matched.head_kind heq
    refine ⟨_, .assign (hps.matched.head_kind hn) hq h', ?_⟩
    rw [Stmt.map, Stmt.map, he, hps.matched.head_lexeme]
  | .call h, hts => by
    obtain ⟨note', args', h', hnote, hargs⟩ := h.placed hps.matched hts
    refine ⟨_, .call h', ?_⟩
    have hshape := congrArg (Expr.mapAll fun _ ↦ ()) hargs
    rw [Expr.mapAll_mapAll, Expr.mapAll_mapAll] at hshape
    exact congrArg (Stmt.call () () _) hshape
  | .loop hw h hb, hts => by
    obtain ⟨p, others, rfl, rfl, hothers⟩ := List.map_eq_cons_iff.1 hts
    obtain ⟨qs, rs, rfl, hqs, hrs⟩ := List.map_eq_append_iff.1 hothers
    obtain ⟨e', h', he⟩ := h.placed_shape hps.tail.left.matched hqs
    obtain ⟨b', hb', hbody⟩ := hb.placed hps.tail.right hrs
    rw [List.map_cons, List.map_append]
    refine ⟨_, .loop (hps.matched.head_kind hw) h' hb', ?_⟩
    rw [Stmt.map, Stmt.map, he, hbody]
  | .branch hw h ht, hts => by
    obtain ⟨p, others, rfl, rfl, hothers⟩ := List.map_eq_cons_iff.1 hts
    obtain ⟨qs, rs, rfl, hqs, hrs⟩ := List.map_eq_append_iff.1 hothers
    obtain ⟨e', h', he⟩ := h.placed_shape hps.tail.left.matched hqs
    obtain ⟨b', hb', hbody⟩ := ht.placed hps.tail.right hrs
    rw [List.map_cons, List.map_append]
    refine ⟨_, .branch (hps.matched.head_kind hw) h' hb', ?_⟩
    rw [Stmt.map, Stmt.map, he, hbody]
  | .branchElse hw h ht ho hf, hts => by
    obtain ⟨p, others, rfl, rfl, hothers⟩ := List.map_eq_cons_iff.1 hts
    obtain ⟨front, back, rfl, hfront, hback⟩ := List.map_eq_append_iff.1 hothers
    obtain ⟨qs, rs, rfl, hqs, hrs⟩ := List.map_eq_append_iff.1 hfront
    obtain ⟨o, us, rfl, rfl, hus⟩ := List.map_eq_cons_iff.1 hback
    obtain ⟨e', h', he⟩ := h.placed_shape hps.tail.left.left.matched hqs
    obtain ⟨b', hb', htrue⟩ := ht.placed hps.tail.left.right hrs
    obtain ⟨c', hc', hfalse⟩ := hf.placed hps.tail.right.tail hus
    have hother := hps.tail.right.matched.head_kind ho
    rw [List.map_cons, List.map_append, List.map_append, List.map_cons]
    refine ⟨_, .branchElse (hps.matched.head_kind hw) h' hb' hother hc', ?_⟩
    rw [Stmt.map, Stmt.map, he, htrue, hfalse]
  | .print hw h, hts => by
    obtain ⟨p, qs, rfl, rfl, hqs⟩ := List.map_eq_cons_iff.1 hts
    obtain ⟨e', h', he⟩ := h.placed_shape hps.tail.matched hqs
    refine ⟨_, .print (hps.matched.head_kind hw) h', ?_⟩
    rw [Stmt.map, Stmt.map, he]
  | .ret hw hn, hts => by
    obtain ⟨p, rfl, rfl⟩ := List.map_eq_singleton_iff.1 hts
    rw [hnext p List.mem_cons_self] at hn
    exact ⟨_, .ret (hps.matched.head_kind hw) hn, rfl⟩
  | .retValue hw hv h, hts => by
    obtain ⟨p, others, rfl, rfl, hothers⟩ := List.map_eq_cons_iff.1 hts
    obtain ⟨q, qs, rfl, rfl, hqs⟩ := List.map_eq_cons_iff.1 hothers
    obtain ⟨e', h', he⟩ := h.placed_shape hps.tail.matched hothers
    rw [hps.takesValue_iff List.mem_cons_self (List.mem_cons_of_mem _ List.mem_cons_self)] at hv
    refine ⟨_, .retValue (hps.matched.head_kind hw) hv h', ?_⟩
    rw [Stmt.map, Stmt.map, he]

theorem Statements.placed {ts : List Token} {next next' : Token} {ss : List (Stmt Extent)}
    {ps : List (Token × Token)} (hps : Shifted ps) (hnext : FollowAlike ps next next') :
    Statements ts next ss → ps.map Prod.fst = ts →
      ∃ ss', Statements (ps.map Prod.snd) next' ss' ∧
        Stmt.mapAll (fun _ ↦ ()) ss' = Stmt.mapAll (fun _ ↦ ()) ss
  | .nil, hts => by
    obtain rfl : ps = [] := List.map_eq_nil_iff.1 hts
    exact ⟨[], .nil, rfl⟩
  | .cons h hs, hts => by
    obtain ⟨qs, rs, rfl, hqs, hrs⟩ := List.map_eq_append_iff.1 hts
    -- The first statement is followed by the next one, or by what comes behind all of them.
    have hfirst :
        FollowAlike qs ((rs.map Prod.fst).headD next) ((rs.map Prod.snd).headD next') := by
      cases rs with
      | nil => exact hnext.mono fun p hp ↦ List.mem_append_left _ hp
      | cons r rs =>
        intro p hp
        exact hps.takesValue_iff (List.mem_append_left _ hp)
          (List.mem_append_right _ List.mem_cons_self)
    rw [hrs] at hfirst
    obtain ⟨s', h', hstmt⟩ := h.placed hps.left hfirst hqs
    obtain ⟨ss', hs', hstmts⟩ :=
      hs.placed hps.right (hnext.mono fun p hp ↦ List.mem_append_right _ hp) hrs
    rw [List.map_append]
    refine ⟨_, .cons h' hs', ?_⟩
    rw [Stmt.mapAll, Stmt.mapAll, hstmt, hstmts]

theorem BraceBlock.placed {ts : List Token} {b : Block Extent} {ps : List (Token × Token)}
    (hps : Shifted ps) :
    BraceBlock ts b → ps.map Prod.fst = ts →
      ∃ b', BraceBlock (ps.map Prod.snd) b' ∧ b'.map (fun _ ↦ ()) = b.map fun _ ↦ ()
  | .mk hl h hr, hts => by
    obtain ⟨p, others, rfl, rfl, hothers⟩ := List.map_eq_cons_iff.1 hts
    obtain ⟨qs, last, rfl, hqs, hlast⟩ := List.map_eq_append_iff.1 hothers
    obtain ⟨q, rfl, rfl⟩ := List.map_eq_singleton_iff.1 hlast
    have hq := hps.tail.right.matched.head_kind hr
    have hclose : FollowAlike qs q.1 q.2 :=
      .of_not_startsExpr (by rw [hr]; rfl) (by rw [hq]; rfl) qs
    obtain ⟨ss', h', hstmts⟩ := h.placed hps.tail.left hclose hqs
    rw [List.map_cons, List.map_append]
    refine ⟨_, .mk (hps.matched.head_kind hl) h' hq, ?_⟩
    rw [Block.map, Block.map, hstmts]

end

/-! ## Definitions -/

variable {ts : List Token} {ps : List (Token × Token)}

theorem Declaration.placed {d : VarDecl Extent} (h : Declaration ts d) (hps : Matched ps)
    (hts : ps.map Prod.fst = ts) :
    ∃ d', Declaration (ps.map Prod.snd) d' ∧ d'.map (fun _ ↦ ()) = d.map fun _ ↦ () := by
  cases h with
  | plain hw hn hc ht =>
    obtain ⟨w, more, rfl, rfl, hmore⟩ := List.map_eq_cons_iff.1 hts
    obtain ⟨n, others, rfl, rfl, hothers⟩ := List.map_eq_cons_iff.1 hmore
    obtain ⟨c, last, rfl, rfl, hlast⟩ := List.map_eq_cons_iff.1 hothers
    obtain ⟨t, rfl, rfl⟩ := List.map_eq_singleton_iff.1 hlast
    refine ⟨_, .plain (hps.head_kind hw) (hps.tail.head_kind hn) (hps.tail.tail.head_kind hc)
      (hps.tail.tail.tail.head_kind ht), ?_⟩
    rw [VarDecl.map, VarDecl.map, hps.tail.head_lexeme, hps.tail.tail.tail.head_lexeme]
  | initial hw hn hc ht heq h =>
    obtain ⟨w, more, rfl, rfl, hmore⟩ := List.map_eq_cons_iff.1 hts
    obtain ⟨n, others, rfl, rfl, hothers⟩ := List.map_eq_cons_iff.1 hmore
    obtain ⟨c, typed, rfl, rfl, htyped⟩ := List.map_eq_cons_iff.1 hothers
    obtain ⟨t, valued, rfl, rfl, hvalued⟩ := List.map_eq_cons_iff.1 htyped
    obtain ⟨q, qs, rfl, rfl, hqs⟩ := List.map_eq_cons_iff.1 hvalued
    obtain ⟨e', h', he⟩ := h.placed_shape hps.tail.tail.tail.tail.tail hqs
    refine ⟨_, .initial (hps.head_kind hw) (hps.tail.head_kind hn) (hps.tail.tail.head_kind hc)
      (hps.tail.tail.tail.head_kind ht) (hps.tail.tail.tail.tail.head_kind heq) h', ?_⟩
    rw [VarDecl.map, VarDecl.map, hps.tail.head_lexeme, hps.tail.tail.tail.head_lexeme,
      Option.map_some, Option.map_some, he]

theorem Declarations.placed {ts : List Token} {ds : List (VarDecl Extent)}
    {ps : List (Token × Token)} (hps : Matched ps) :
    Declarations ts ds → ps.map Prod.fst = ts →
      ∃ ds', Declarations (ps.map Prod.snd) ds' ∧
        ds'.map (VarDecl.map fun _ ↦ ()) = ds.map (VarDecl.map fun _ ↦ ())
  | .nil, hts => by
    obtain rfl : ps = [] := List.map_eq_nil_iff.1 hts
    exact ⟨[], .nil, rfl⟩
  | .cons h hs, hts => by
    obtain ⟨qs, rs, rfl, hqs, hrs⟩ := List.map_eq_append_iff.1 hts
    obtain ⟨d', h', hd⟩ := h.placed hps.left hqs
    obtain ⟨ds', hs', hds⟩ := hs.placed hps.right hrs
    rw [List.map_append]
    refine ⟨_, .cons h' hs', ?_⟩
    rw [List.map_cons, List.map_cons, hd, hds]

theorem FunctionBody.placed {b : Body Extent} (h : FunctionBody ts b) (hps : Shifted ps)
    (hts : ps.map Prod.fst = ts) :
    ∃ b', FunctionBody (ps.map Prod.snd) b' ∧ b'.map (fun _ ↦ ()) = b.map fun _ ↦ () := by
  obtain ⟨hl, hparts, hr⟩ := h
  obtain ⟨p, others, rfl, rfl, hothers⟩ := List.map_eq_cons_iff.1 hts
  obtain ⟨qs, last, rfl, hqs, hlast⟩ := List.map_eq_append_iff.1 hothers
  obtain ⟨q, rfl, rfl⟩ := List.map_eq_singleton_iff.1 hlast
  obtain ⟨hd, hs⟩ := hparts
  obtain ⟨us, vs, rfl, hus, hvs⟩ := List.map_eq_append_iff.1 hqs
  have hq := hps.tail.right.matched.head_kind hr
  have hclose : FollowAlike vs q.1 q.2 :=
    .of_not_startsExpr (by rw [hr]; rfl) (by rw [hq]; rfl) vs
  obtain ⟨ds', hd', hdecls⟩ := hd.placed hps.tail.left.left.matched hus
  obtain ⟨ss', hs', hstmts⟩ := hs.placed hps.tail.left.right hclose hvs
  rw [List.map_cons, List.map_append, List.map_append]
  refine ⟨_, .mk (hps.matched.head_kind hl) (.mk hd' hs') hq, ?_⟩
  rw [Body.map, Body.map, VarBlock.map, VarBlock.map, hdecls, Block.map, Block.map, hstmts]

theorem Parameter.placed {p : Param Extent} (h : Parameter ts p) (hps : Matched ps)
    (hts : ps.map Prod.fst = ts) :
    ∃ p', Parameter (ps.map Prod.snd) p' ∧ p'.map (fun _ ↦ ()) = p.map fun _ ↦ () := by
  obtain ⟨hn, hc, ht⟩ := h
  obtain ⟨n, others, rfl, rfl, hothers⟩ := List.map_eq_cons_iff.1 hts
  obtain ⟨c, last, rfl, rfl, hlast⟩ := List.map_eq_cons_iff.1 hothers
  obtain ⟨t, rfl, rfl⟩ := List.map_eq_singleton_iff.1 hlast
  refine ⟨_, .mk (hps.head_kind hn) (hps.tail.head_kind hc) (hps.tail.tail.head_kind ht), ?_⟩
  rw [Param.map, Param.map, hps.head_lexeme, hps.tail.tail.head_lexeme]

theorem ParameterList.placed {ts : List Token} {params : List (Param Extent)}
    {ps : List (Token × Token)} (hps : Matched ps) :
    ParameterList ts params → ps.map Prod.fst = ts →
      ∃ params', ParameterList (ps.map Prod.snd) params' ∧
        params'.map (Param.map fun _ ↦ ()) = params.map (Param.map fun _ ↦ ())
  | .last h hr, hts => by
    obtain ⟨qs, last, rfl, hqs, hlast⟩ := List.map_eq_append_iff.1 hts
    obtain ⟨q, rfl, rfl⟩ := List.map_eq_singleton_iff.1 hlast
    obtain ⟨p', h', hp⟩ := h.placed hps.left hqs
    rw [List.map_append]
    exact ⟨_, .last h' (hps.right.head_kind hr), congrArg ([·]) hp⟩
  | .more h hc hs, hts => by
    obtain ⟨qs, others, rfl, hqs, hothers⟩ := List.map_eq_append_iff.1 hts
    obtain ⟨q, rs, rfl, rfl, hrs⟩ := List.map_eq_cons_iff.1 hothers
    obtain ⟨p', h', hp⟩ := h.placed hps.left hqs
    obtain ⟨params', hs', hparams⟩ := hs.placed hps.right.tail hrs
    rw [List.map_append, List.map_cons]
    refine ⟨_, .more h' (hps.right.head_kind hc) hs', ?_⟩
    rw [List.map_cons, List.map_cons, hp, hparams]

theorem Parameters.placed {params : List (Param Extent)} (h : Parameters ts params)
    (hps : Matched ps) (hts : ps.map Prod.fst = ts) :
    ∃ params', Parameters (ps.map Prod.snd) params' ∧
      params'.map (Param.map fun _ ↦ ()) = params.map (Param.map fun _ ↦ ()) := by
  cases h with
  | none hr =>
    obtain ⟨p, rfl, rfl⟩ := List.map_eq_singleton_iff.1 hts
    exact ⟨[], .none (hps.head_kind hr), rfl⟩
  | some h =>
    obtain ⟨params', h', hparams⟩ := h.placed hps hts
    exact ⟨params', .some h', hparams⟩

theorem ReturnType.placed {returns : String} (h : ReturnType ts returns) (hps : Matched ps)
    (hts : ps.map Prod.fst = ts) : ReturnType (ps.map Prod.snd) returns := by
  cases h with
  | none =>
    obtain rfl : ps = [] := List.map_eq_nil_iff.1 hts
    exact .none
  | some hc ht =>
    obtain ⟨c, others, rfl, rfl, hothers⟩ := List.map_eq_cons_iff.1 hts
    obtain ⟨t, rfl, rfl⟩ := List.map_eq_singleton_iff.1 hothers
    rw [← hps.tail.head_lexeme]
    exact .some (hps.head_kind hc) (hps.tail.head_kind ht)

theorem Function.placed {f : FuncDef Extent} (h : Function ts f) (hps : Shifted ps)
    (hts : ps.map Prod.fst = ts) :
    ∃ f', Function (ps.map Prod.snd) f' ∧ f'.map (fun _ ↦ ()) = f.map fun _ ↦ () := by
  obtain ⟨hw, hn, hl, hp, hr, hb⟩ := h
  obtain ⟨w, more, rfl, rfl, hmore⟩ := List.map_eq_cons_iff.1 hts
  obtain ⟨n, others, rfl, rfl, hothers⟩ := List.map_eq_cons_iff.1 hmore
  obtain ⟨l, parts, rfl, rfl, hparts⟩ := List.map_eq_cons_iff.1 hothers
  obtain ⟨front, vs, rfl, hfront, hvs⟩ := List.map_eq_append_iff.1 hparts
  obtain ⟨qs, us, rfl, hqs, hus⟩ := List.map_eq_append_iff.1 hfront
  have hthree := hps.tail.tail.tail
  obtain ⟨params', hp', hparams⟩ := hp.placed hthree.left.left.matched hqs
  obtain ⟨body', hb', hbody⟩ := hb.placed hthree.right hvs
  have hr' := hr.placed hthree.left.right.matched hus
  have hn' := hps.tail.matched.head_kind hn
  have hl' := hps.tail.tail.matched.head_kind hl
  simp only [List.map_cons, List.map_append]
  refine ⟨_, .mk (hps.matched.head_kind hw) hn' hl' hp' hr' hb', ?_⟩
  rw [FuncDef.map, FuncDef.map, hps.tail.matched.head_lexeme, hparams, hbody]

theorem Functions.placed {ts : List Token} {fs : List (FuncDef Extent)}
    {ps : List (Token × Token)} (hps : Shifted ps) :
    Functions ts fs → ps.map Prod.fst = ts →
      ∃ fs', Functions (ps.map Prod.snd) fs' ∧
        fs'.map (FuncDef.map fun _ ↦ ()) = fs.map (FuncDef.map fun _ ↦ ())
  | .nil, hts => by
    obtain rfl : ps = [] := List.map_eq_nil_iff.1 hts
    exact ⟨[], .nil, rfl⟩
  | .cons h hs, hts => by
    obtain ⟨qs, rs, rfl, hqs, hrs⟩ := List.map_eq_append_iff.1 hts
    obtain ⟨f', h', hf⟩ := h.placed hps.left hqs
    obtain ⟨fs', hs', hfs⟩ := hs.placed hps.right hrs
    rw [List.map_append]
    refine ⟨_, .cons h' hs', ?_⟩
    rw [List.map_cons, List.map_cons, hf, hfs]

end Grammar

end ScriptAnalysis
