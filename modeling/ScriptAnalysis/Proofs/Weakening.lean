import ScriptAnalysis.Proofs.StaticSemantics

/-!
# More names change no type

What is well typed among some names is well typed among more of them, with the same types. The names
that a body sees after its declarations are those it saw before and the declared ones, so more
functions and more declarations only add to them.
-/

namespace ScriptAnalysis

/-- Whether all that one environment binds is bound alike in another. -/
def Env.Le (env env' : Env) : Prop := ∀ name type, env name = some type → env' name = some type

section

variable {α : Type} {env env' : Env}

mutual

theorem HasType.mono (hle : env.Le env') {e : Expr α} {type : Ty} :
    HasType env e type → HasType env' e type
  | .int => .int
  | .string => .string
  | .bool => .bool
  | .ident h => .ident (hle _ _ h)
  | .minus h => .minus (h.mono hle)
  | .not h => .not (h.mono hle)
  | .parens h => .parens (h.mono hle)
  | .arithmetic hop hl hr => .arithmetic hop (hl.mono hle) (hr.mono hle)
  | .comparison hop hl hr => .comparison hop (hl.mono hle) (hr.mono hle)
  | .call h hargs => .call (hle _ _ h) (hargs.mono hle)

theorem HaveTypes.mono (hle : env.Le env') {es : List (Expr α)} {ps : List Prim} :
    HaveTypes env es ps → HaveTypes env' es ps
  | .nil => .nil
  | .cons h hs => .cons (h.mono hle) (hs.mono hle)

end

mutual

theorem Stmt.WellTyped.mono (hle : env.Le env') {returns : Prim} {s : Stmt α} :
    s.WellTyped env returns → s.WellTyped env' returns
  | .assign h hv => .assign (hle _ _ h) (hv.mono hle)
  | .loop hc hb => .loop (hc.mono hle) (hb.mono hle)
  | .branch hc ht => .branch (hc.mono hle) (ht.mono hle)
  | .branchElse hc ht hf => .branchElse (hc.mono hle) (ht.mono hle) (hf.mono hle)
  | .print hv => .print (hv.mono hle)
  | .ret h => .ret h
  | .retValue h hv => .retValue h (hv.mono hle)
  | .call h => .call (h.mono hle)

theorem Block.WellTyped.mono (hle : env.Le env') {returns : Prim} {b : Block α} :
    b.WellTyped env returns → b.WellTyped env' returns
  | .mk h => .mk (h.mono hle)

theorem Stmt.AllWellTyped.mono (hle : env.Le env') {returns : Prim} {stmts : List (Stmt α)} :
    Stmt.AllWellTyped env returns stmts → Stmt.AllWellTyped env' returns stmts
  | .nil => .nil
  | .cons h hs => .cons (h.mono hle) (hs.mono hle)

end

end

theorem Context.env_bind (Γ : Context) (name other : String) (type : Prim) :
    (Γ.bind name type).env other = if other = name then some (.prim type) else Γ.env other := by
  unfold Context.env Context.bind
  rw [List.lookup_cons]
  by_cases hname : other = name
  · simp [hname]
  · have hne : (other == name) = false := by simpa using hname
    rw [hne, if_neg hname]

theorem Context.le_bind {Γ : Context} {name : String} (h : Γ.env name = none) (type : Prim) :
    Γ.env.Le (Γ.bind name type).env := by
  intro other t hother
  rw [Context.env_bind, if_neg, hother]
  rintro rfl
  rw [h] at hother
  cases hother

namespace Declares

variable {α β : Type} {Γ Γ' : Context} {ds : List (VarDecl α)}

theorem unique {Γ₁ Γ₂ : Context} (h₁ : Declares Γ ds Γ₁) (h₂ : Declares Γ ds Γ₂) : Γ₁ = Γ₂ := by
  induction h₁ with
  | nil =>
    cases h₂
    rfl
  | cons _ htype _ _ ih =>
    cases h₂ with
    | cons _ htype' _ hs' =>
      obtain rfl := Option.some.inj (htype.symm.trans htype')
      exact ih hs'

/-- A name is bound after declarations if one of them declares it or it was bound before. -/
theorem env_eq_some_iff (h : Declares Γ ds Γ') {name : String} {type : Ty} :
    Γ'.env name = some type ↔
      (∃ d ∈ ds, d.name = name ∧ (writtenType? d.type).map .prim = some type) ∨
        Γ.env name = some type := by
  induction h with
  | nil => simp
  | @cons Γ Γ' d ds p hname htype hinit hs ih =>
    rw [ih, Context.env_bind]
    by_cases heq : name = d.name
    · subst heq
      simp [htype, hname, or_comm]
    · rw [if_neg heq]
      simp [Ne.symm heq]

/-- One more variable can be declared under a new name. -/
theorem concat (h : Declares Γ ds Γ') {d : VarDecl α} {type : Prim} (hname : Γ'.env d.name = none)
    (htype : writtenType? d.type = some type)
    (hinit : ∀ e ∈ d.init, HasType Γ'.env e (.prim type)) :
    Declares Γ (ds ++ [d]) (Γ'.bind d.name type) := by
  induction h with
  | nil => exact .cons hname htype hinit .nil
  | cons hname' htype' hinit' hs ih => exact .cons hname' htype' hinit' (ih hname hinit)

/-- With more functions and the same declarations among others, a body sees more. -/
theorem env_le {functions functions' : List (String × Signature)} {ds' : List (VarDecl β)}
    (h : Declares ⟨[], functions⟩ ds Γ) (h' : Declares ⟨[], functions'⟩ ds' Γ')
    (hfunctions : functions <+: functions')
    (hdecls : ∀ d ∈ ds, ∃ d' ∈ ds', d'.name = d.name ∧ d'.type = d.type) : Γ.env.Le Γ'.env := by
  intro name type hbound
  apply h'.env_eq_some_iff.2
  rcases h.env_eq_some_iff.1 hbound with ⟨d, hd, hname, htype⟩ | houter
  · obtain ⟨d', hd', hname', htype'⟩ := hdecls d hd
    exact .inl ⟨d', hd', hname'.trans hname, htype'.symm ▸ htype⟩
  · right
    obtain ⟨more, rfl⟩ := hfunctions
    obtain ⟨signature, hlookup, rfl⟩ := Option.map_eq_some_iff.1 houter
    apply Option.map_eq_some_iff.2
    refine ⟨signature, ?_, rfl⟩
    change (functions ++ more).lookup name = some signature
    rw [List.lookup_append, show functions.lookup name = some signature from hlookup]
    rfl

end Declares

end ScriptAnalysis
