import ScriptAnalysis.Proofs.Nesting
import ScriptAnalysis.Proofs.Placement
import ScriptAnalysis.Proofs.Recognition

/-!
# Tokens put into a program

A program that stays one when tokens are put into it may be read differently, but not what it
declares: if the new tokens begin with a function, or with a declaration behind no open brace, or
stand at the end, the functions of the program stay the first ones, and its variables stay declared
with their types.
-/

namespace ScriptAnalysis

namespace Grammar

open Kind (isOpener)

/-- Functions are read as far as they go, in one way. -/
theorem Functions.unique {ts ts' rest rest' : List Token} {fs fs' : List (FuncDef Extent)}
    (h : Functions ts fs) (h' : Functions ts' fs') (heq : ts ++ rest = ts' ++ rest')
    (hrest : Parser.startsWith .funcWord rest = false)
    (hrest' : Parser.startsWith .funcWord rest' = false) : fs = fs' := by
  let endMark : Token := ⟨.eof, "", 0, 0⟩
  obtain ⟨_, hread⟩ := @Functions.read endMark _ _ _ _ h hrest rfl
  obtain ⟨_, hread'⟩ := @Functions.read endMark _ _ _ _ h' hrest' heq
  rw [hread] at hread'
  injection hread' with hparsed
  injection hparsed

theorem startsWith_append_eq_false {kind : Kind} {ts us : List Token}
    (hts : Parser.startsWith kind ts = false) (hus : Parser.startsWith kind us = false) :
    Parser.startsWith kind (ts ++ us) = false := by
  cases ts with
  | nil => exact hus
  | cons t ts => exact hts

theorem startsWith_eq_false_of_ne {kind : Kind} {ts : List Token} (h : ∀ t ∈ ts, t.kind ≠ kind) :
    Parser.startsWith kind ts = false :=
  Parser.startsWith_eq_false fun t ht ↦ h t (List.mem_of_mem_head? ht)

section

variable {ts us vs fts rest : List Token} {v stop stop' : Token} {tree tree' : Script Extent}
  {fs : List (FuncDef Extent)}

theorem Program.exists_functions (h : Program (ts ++ [stop]) tree) :
    ∃ fts rest, ts = fts ++ rest ∧ Functions fts tree.funcs ∧
      Parser.startsWith .funcWord rest = false := by
  obtain ⟨fts, dts, sts, main, hts, hf, -, hd, hs⟩ := h.exists_parts
  refine ⟨fts, dts ++ sts, hts, hf, startsWith_eq_false_of_ne ?_⟩
  rw [List.forall_mem_append]
  exact ⟨hd.ne_funcWord, hs.lacks.ne rfl⟩

theorem Program.funcs_eq (h : Program (ts ++ [stop]) tree) (hts : ts = fts ++ rest)
    (hf : Functions fts fs) (hrest : Parser.startsWith .funcWord rest = false) :
    tree.funcs = fs := by
  obtain ⟨fts', rest', hts', hf', hrest'⟩ := h.exists_functions
  exact hf'.unique hf (hts'.symm.trans hts) hrest' hrest

/-- Tokens that begin with a function leave the functions before them as they are. -/
theorem Program.funcs_prefix_of_funcWord (h : Program (ts ++ us ++ [stop]) tree)
    (h' : Program (ts ++ v :: vs ++ [stop']) tree') (hv : v.kind = .funcWord)
    (hus : Parser.startsWith .funcWord us = false) : tree.funcs <+: tree'.funcs := by
  obtain ⟨fs₁, fs₂, -, hfs, hfirst, -⟩ := h'.cut_functions rfl hv
  rw [hfs, h.funcs_eq rfl hfirst hus]
  exact List.prefix_append fs₁ fs₂

/-- Tokens that begin with a declaration behind no open brace leave the functions as they are. -/
theorem Program.funcs_eq_of_varWord (h : Program (ts ++ us ++ [stop]) tree)
    (h' : Program (ts ++ v :: vs ++ [stop']) tree') (hv : v.kind = .varWord) (hts : net ts = 0)
    (hus : Parser.startsWith .funcWord us = false) : tree.funcs = tree'.funcs := by
  obtain ⟨fts, dts, -, main, ds₁, ds₂, rfl, hf, -, -, hd, -⟩ := h'.cut_declarations rfl hv hts
  apply h.funcs_eq (List.append_assoc fts dts us) hf
  exact startsWith_append_eq_false (startsWith_eq_false_of_ne hd.ne_funcWord) hus

/-- Tokens at the end that do not begin with a function leave the functions as they are. -/
theorem Program.funcs_eq_of_end (h : Program (ts ++ [stop]) tree)
    (h' : Program (ts ++ vs ++ [stop']) tree')
    (hvs : Parser.startsWith .funcWord vs = false) : tree.funcs = tree'.funcs := by
  obtain ⟨fts, rest, rfl, hf, hrest⟩ := h.exists_functions
  exact (h'.funcs_eq (List.append_assoc fts rest vs) hf
    (startsWith_append_eq_false hrest hvs)).symm

end

/-- Whether a variable is declared behind no open brace. -/
def Announces (ts : List Token) (name type : String) : Prop :=
  ∃ before word n colon t after, ts = before ++ word :: n :: colon :: t :: after ∧
    net before = 0 ∧ word.kind = .varWord ∧ n.lexeme = name ∧ t.lexeme = type

section

variable {ts us us' vs before after : List Token} {word stop : Token} {tree : Script Extent}
  {name type : String}

theorem Announces.left (h : Announces ts name type) (us : List Token) :
    Announces (ts ++ us) name type := by
  obtain ⟨before, word, n, colon, t, after, rfl, hrow⟩ := h
  exact ⟨before, word, n, colon, t, after ++ us, by simp, hrow⟩

theorem Announces.right (h : Announces us name type) (hts : net ts = 0) :
    Announces (ts ++ us) name type := by
  obtain ⟨before, word, n, colon, t, after, rfl, hnet, hrow⟩ := h
  refine ⟨ts ++ before, word, n, colon, t, after, by simp, ?_, hrow⟩
  rw [net_append, hts, hnet]
  rfl

theorem Declaration.exists_row {d : VarDecl Extent} (h : Declaration ts d) :
    ∃ word n colon t more, ts = word :: n :: colon :: t :: more ∧ word.kind = .varWord ∧
      Lacks isOpener [n, colon, t] ∧ n.lexeme = d.name ∧ t.lexeme = d.type := by
  cases h with
  | plain hw hn hc ht | initial hw hn hc ht =>
    exact ⟨_, _, _, _, _, rfl, hw, by simp [hn, hc, ht, isOpener], rfl, rfl⟩

theorem Declarations.announces {ds : List (VarDecl Extent)} (h : Declarations ts ds) :
    ∀ d ∈ ds, Announces ts d.name d.type := by
  induction h with
  | nil => exact List.forall_mem_nil _
  | cons h hs ih =>
    rw [List.forall_mem_cons]
    constructor
    · obtain ⟨word, n, colon, t, more, rfl, hword, -, hname, htype⟩ := h.exists_row
      apply Announces.left
      exact ⟨[], word, n, colon, t, more, rfl, rfl, hword, hname, htype⟩
    · intro d hd
      exact (ih d hd).right h.nested.closed

/-- The variables of a program are declared behind no open brace. -/
theorem Program.announces (h : Program (ts ++ [stop]) tree) {main : Body Extent}
    (hmain : tree.main = some main) : ∀ d ∈ main.vars.decls, Announces ts d.name d.type := by
  intro d hd
  obtain ⟨fts, dts, sts, main', rfl, hf, hmain', hdecls, -⟩ := h.exists_parts
  obtain rfl := Option.some.inj (hmain.symm.trans hmain')
  exact ((hdecls.announces d hd).left sts).right hf.nested.closed

/-- The word of a variable behind no open brace begins a declaration of the program. -/
theorem Program.exists_declaration (h : Program (ts ++ [stop]) tree)
    (hts : ts = before ++ word :: after) (hword : word.kind = .varWord) (hnet : net before = 0) :
    ∃ n colon t rest main d, after = n :: colon :: t :: rest ∧ Lacks isOpener [n, colon, t] ∧
      tree.main = some main ∧ d ∈ main.vars.decls ∧ n.lexeme = d.name ∧ t.lexeme = d.type := by
  obtain ⟨-, -, mid, main, ds₁, ds₂, -, -, hmain, hds, -, hd, ⟨rest, rfl⟩⟩ :=
    h.cut_declarations hts hword hnet
  generalize hrow : word :: mid = row at hd
  cases hd with
  | nil => cases hrow
  | @cons row others d ds hd hs =>
    obtain ⟨w, n, colon, t, more, rfl, -, hlacks, hname, htype⟩ := hd.exists_row
    obtain ⟨-, rfl⟩ := List.cons.inj hrow
    refine ⟨n, colon, t, more ++ others ++ rest, main, d, by simp, hlacks, hmain, ?_, hname, htype⟩
    rw [hds]
    simp

theorem Program.exists_of_announces (h : Program (ts ++ [stop]) tree)
    (hannounces : Announces ts name type) :
    ∃ main, tree.main = some main ∧ ∃ d ∈ main.vars.decls, d.name = name ∧ d.type = type := by
  obtain ⟨before, word, n, colon, t, after, hts, hnet, hword, rfl, rfl⟩ := hannounces
  obtain ⟨n', colon', t', rest, main, d, hafter, -, hmain, hd, hname, htype⟩ :=
    h.exists_declaration hts hword hnet
  injection hafter with hn hafter
  injection hafter with hcolon hafter
  injection hafter with ht hafter
  exact ⟨main, hmain, d, hd, by rw [hn, hname], by rw [ht, htype]⟩

theorem net_eq_of_map_bare (h : us.map Token.bare = us'.map Token.bare) : net us = net us' := by
  induction us generalizing us' with
  | nil => rw [List.map_eq_nil_iff.1 h.symm]
  | cons u us ih =>
    obtain ⟨u', others, rfl, hfirst, hothers⟩ := List.map_eq_cons_iff.1 h.symm
    have hkind : u'.kind = u.kind := congrArg Prod.fst hfirst
    rw [net_cons, net_cons, hkind, ih hothers.symm]

theorem Announces.of_map_bare (h : Announces us name type)
    (hbare : us.map Token.bare = us'.map Token.bare) : Announces us' name type := by
  obtain ⟨before, word, n, colon, t, after, rfl, hnet, hword, rfl, rfl⟩ := h
  rw [List.map_append] at hbare
  obtain ⟨before', row, rfl, hbefore, hrow⟩ := List.map_eq_append_iff.1 hbare.symm
  obtain ⟨word', row, rfl, hword', hrow⟩ := List.map_eq_cons_iff.1 hrow
  obtain ⟨n', row, rfl, hn, hrow⟩ := List.map_eq_cons_iff.1 hrow
  obtain ⟨colon', row, rfl, hcolon, hrow⟩ := List.map_eq_cons_iff.1 hrow
  obtain ⟨t', after', rfl, ht, hafter⟩ := List.map_eq_cons_iff.1 hrow
  refine ⟨before', word', n', colon', t', after', rfl, ?_, ?_, congrArg Prod.snd hn,
    congrArg Prod.snd ht⟩
  · rw [net_eq_of_map_bare hbefore, hnet]
  · exact (congrArg Prod.fst hword').trans hword

/-- Variables stay declared when tokens that open a definition are put behind no open brace. -/
theorem Announces.insert {v : Token} (h : Announces (ts ++ us) name type)
    (hprogram : Program (ts ++ v :: vs ++ us' ++ [stop]) tree) (hv : isOpener v.kind = true)
    (hts : net ts = 0) (hvs : net (v :: vs) = 0) (hus : us.map Token.bare = us'.map Token.bare) :
    Announces (ts ++ v :: vs ++ us') name type := by
  obtain ⟨before, word, n, colon, t, after, heq, hbefore, hword, hrow⟩ := h
  rcases append_cons_eq_append heq with ⟨mid, rfl, hafter⟩ | ⟨mid, rfl, hmid⟩
  · -- The new tokens do not tear the declaration apart, since it is one in the new program too.
    have hsplit : before ++ word :: mid ++ v :: vs ++ us' =
        before ++ word :: (mid ++ v :: (vs ++ us')) := by simp
    obtain ⟨n', colon', t', rest, -, -, hrest, hlacks, -⟩ :=
      hprogram.exists_declaration hsplit hword hbefore
    rw [lacks_cons, lacks_cons, lacks_cons] at hlacks
    match mid with
    | [] =>
      obtain ⟨rfl, -⟩ := List.cons.inj hrest
      rw [hlacks.1] at hv
      cases hv
    | [_] =>
      injection hrest with _ hrest
      obtain ⟨rfl, -⟩ := List.cons.inj hrest
      rw [hlacks.2.1] at hv
      cases hv
    | [_, _] =>
      injection hrest with _ hrest
      injection hrest with _ hrest
      obtain ⟨rfl, -⟩ := List.cons.inj hrest
      rw [hlacks.2.2.1] at hv
      cases hv
    | a :: b :: c :: mid =>
      injection hafter with hn hafter
      injection hafter with hcolon hafter
      injection hafter with ht hafter
      subst hn ht
      exact ⟨before, word, n, b, t, mid ++ v :: vs ++ us', by simp, hbefore, hword, hrow⟩
  · have hnet : net mid = 0 := by
      rw [net_append, hts] at hbefore
      omega
    have hback : Announces us name type :=
      ⟨mid, word, n, colon, t, after, hmid, hnet, hword, hrow⟩
    apply (hback.of_map_bare hus).right
    rw [net_append, hts, hvs]
    rfl

end

end Grammar

end ScriptAnalysis
