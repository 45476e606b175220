import ScriptAnalysis.Proofs.Scopes

/-!
# Bodies are checked by their rules

A body whose scope holds a context is walked without a report exactly if it is well typed in that
context. The walk changes no other scope.
-/

namespace ScriptAnalysis

variable {options : Options} {t : ScopeTable} {id id' : ScopeId} {returns : Prim} {Γ : Context}

theorem Prim.declared_of_writtenType? {name : String} {type : Prim}
    (h : writtenType? name = some type) : Prim.declared name = type := by
  unfold writtenType? at h
  split at h <;> cases h <;> decide

theorem writtenType?_ne_error {name : String} {type : Prim} (h : writtenType? name = some type) :
    type ≠ .error := by
  unfold writtenType? at h
  split at h <;> cases h <;> decide

theorem VarDecl.scope?_check_ne (d : VarDecl Tag) (hne : id' ≠ id) :
    (d.check t id).scopes.scope? id' = t.scope? id' := by
  unfold VarDecl.check
  simp only
  split
  · exact ScopeTable.scope?_define_ne hne _
  · split <;> exact ScopeTable.scope?_define_ne hne _

theorem VarDecl.scope?_checkAll_ne (ds : List (VarDecl Tag)) (hne : id' ≠ id) :
    (VarDecl.checkAll t id ds).scopes.scope? id' = t.scope? id' := by
  induction ds generalizing t with
  | nil => rfl
  | cons d ds ih => exact ih.trans (d.scope?_check_ne hne)

theorem VarDecl.check_of_isSome {d : VarDecl Tag} (h : (t.resolve? id d.name).isSome = true) :
    ¬ options.Silent (d.check t id).events := by
  intro hsilent
  unfold VarDecl.check at hsilent
  simp only [h, if_true, Options.silent_append] at hsilent
  simp [Options.admits, Event.entry?] at hsilent

theorem VarDecl.check_of_init_eq_none {d : VarDecl Tag} (h : (t.resolve? id d.name).isSome = false)
    (hinit : d.init = none) :
    d.check t id = ⟨t.define id d.name (some (.prim (Prim.declared d.type))), [],
      [⟨d.name, d.note.span⟩]⟩ := by
  unfold VarDecl.check
  simp [h, hinit]

theorem VarDecl.check_of_init_eq_some {d : VarDecl Tag} {e : Expr Tag}
    (h : (t.resolve? id d.name).isSome = false) (hinit : d.init = some e) :
    d.check t id =
      if (e.infer (t.env id)).type = .prim (Prim.declared d.type) then
        ⟨t.define id d.name (some (.prim (Prim.declared d.type))), (e.infer (t.env id)).events,
          [⟨d.name, d.note.span⟩]⟩
      else
        ⟨t.define id d.name (some .error), (e.infer (t.env id)).events ++
          [.typed d.note .error, .reported d.note (.initialType (e.infer (t.env id)).type d.type)],
          []⟩ := by
  unfold VarDecl.check
  by_cases htype : (e.infer (t.env id)).type = .prim (Prim.declared d.type) <;>
    simp [h, hinit, htype, Option.filter]

/-- A declaration is walked without a report exactly if its name is new and its value fits, and then
it extends the context. -/
theorem VarDecl.silent_check_iff (h : t.Holds id returns Γ) {d : VarDecl Tag} {type : Prim}
    (htype : writtenType? d.type = some type) :
    (options.Silent (d.check t id).events ↔
      Γ.env d.name = none ∧ ∀ e ∈ d.init, HasType Γ.env e (.prim type)) ∧
    (options.Silent (d.check t id).events →
      (d.check t id).scopes.Holds id returns (Γ.bind d.name type)) := by
  have hdeclared : Prim.declared d.type = type := Prim.declared_of_writtenType? htype
  have hresolve := h.isSome_resolve? d.name
  cases hname : Γ.env d.name with
  | some bound =>
    rw [hname] at hresolve
    simp [VarDecl.check_of_isSome hresolve]
  | none =>
    rw [hname] at hresolve
    have hholds := h.define d.name (writtenType?_ne_error htype)
    cases hinit : d.init with
    | none =>
      rw [VarDecl.check_of_init_eq_none hresolve hinit, hdeclared]
      simpa using hholds
    | some e =>
      rw [VarDecl.check_of_init_eq_some hresolve hinit, hdeclared, h.env_eq]
      have hproper : Γ.env.Proper := h.proper.env
      by_cases hfound : (e.infer Γ.env).type = .prim type
      · rw [if_pos hfound]
        refine ⟨?_, fun _ ↦ hholds⟩
        simp [hasType_iff options hproper, hfound]
      · rw [if_neg hfound]
        have hreported : ¬ options.Silent ((e.infer Γ.env).events ++
            [.typed d.note .error,
              .reported d.note (.initialType (e.infer Γ.env).type d.type)]) := by
          simp [Options.admits, Event.entry?]
        simp [hreported, hasType_iff options hproper, hfound]

theorem VarDecl.silent_checkAll_iff (h : t.Holds id returns Γ) {ds : List (VarDecl Tag)}
    (hds : ∀ d ∈ ds, (writtenType? d.type).isSome = true) :
    (options.Silent (VarDecl.checkAll t id ds).events ↔ ∃ Γ', Declares Γ ds Γ') ∧
    ∀ Γ', Declares Γ ds Γ' → (VarDecl.checkAll t id ds).scopes.Holds id returns Γ' := by
  induction ds generalizing t Γ with
  | nil =>
    refine ⟨by simpa [VarDecl.checkAll] using ⟨Γ, .nil⟩, ?_⟩
    rintro _ ⟨⟩
    exact h
  | cons d ds ih =>
    obtain ⟨type, htype⟩ := Option.isSome_iff_exists.1 (hds d (by simp))
    obtain ⟨hfirst, hholds⟩ := @VarDecl.silent_check_iff options t id returns Γ h d type htype
    -- What the rules say of the first declaration, and of the others after it.
    have hinversion : ∀ Γ', Declares Γ (d :: ds) Γ' →
        options.Silent (d.check t id).events ∧ Declares (Γ.bind d.name type) ds Γ' := by
      intro Γ' hdeclares
      cases hdeclares with
      | cons hname htype' hinit hs =>
        rw [htype] at htype'
        cases htype'
        exact ⟨hfirst.2 ⟨hname, hinit⟩, hs⟩
    have hlater := fun hsilent ↦ ih (hholds hsilent) fun d' hd' ↦ hds d' (by simp [hd'])
    rw [VarDecl.checkAll, Options.silent_append]
    refine ⟨⟨?_, ?_⟩, ?_⟩
    · rintro ⟨hsilent, hothers⟩
      obtain ⟨hname, hinit⟩ := hfirst.1 hsilent
      obtain ⟨Γ', hdeclares⟩ := (hlater hsilent).1.1 hothers
      exact ⟨Γ', .cons hname htype hinit hdeclares⟩
    · rintro ⟨Γ', hdeclares⟩
      obtain ⟨hsilent, hs⟩ := hinversion Γ' hdeclares
      exact ⟨hsilent, (hlater hsilent).1.2 ⟨Γ', hs⟩⟩
    · intro Γ' hdeclares
      obtain ⟨hsilent, hs⟩ := hinversion Γ' hdeclares
      exact (hlater hsilent).2 Γ' hs

theorem VarDecl.name_ne_of_mem_locals {ds : List (VarDecl Tag)} (hds : ∀ d ∈ ds, d.name ≠ "") :
    ∀ l ∈ (VarDecl.checkAll t id ds).locals, l.name ≠ "" := by
  induction ds generalizing t with
  | nil => simp [VarDecl.checkAll]
  | cons d ds ih =>
    intro l hl
    rw [VarDecl.checkAll] at hl
    rcases List.mem_append.1 hl with hfirst | hothers
    · have hname : l.name = d.name := by
        unfold VarDecl.check at hfirst
        simp only at hfirst
        split at hfirst
        · simp at hfirst
        · split at hfirst
          · simp at hfirst
          · rw [List.mem_singleton.1 hfirst]
      rw [hname]
      exact hds d (by simp)
    · exact ih (fun d' hd' ↦ hds d' (by simp [hd'])) l hothers

theorem silent_closeLocals {events : List Event} {locals : List Local} :
    options.Silent (closeLocals t id events locals).events ↔ options.Silent events := by
  unfold closeLocals
  simp only
  split
  · rfl
  · rw [Options.silent_append]
    refine and_iff_left (Options.silent_of_entry?_eq_none ?_)
    intro event hevent
    obtain ⟨l, -, hl⟩ := List.mem_flatMap.1 hevent
    unfold Local.warning at hl
    simp only at hl
    split at hl
    · simp at hl
    · rw [List.mem_singleton.1 hl]
      rfl

/-- Where no name is empty, the watch comes to its end. -/
theorem closeLocals_of_names {events : List Event} {locals : List Local}
    (h : ∀ l ∈ locals, l.name ≠ "") :
    closeLocals t id events locals =
      ⟨t, events ++ (locals.filter fun l ↦ !events.any (Event.reads l.name)).flatMap
        (Local.warning t id), none⟩ := by
  unfold closeLocals
  rw [if_neg]
  intro hempty
  obtain ⟨l, hl, hname⟩ := List.any_eq_true.1 hempty
  exact h l (List.mem_filter.1 hl).1 (by simpa using hname)

theorem fault_closeLocals {events : List Event} {locals : List Local}
    (h : ∀ l ∈ locals, l.name ≠ "") : (closeLocals t id events locals).fault = none := by
  rw [closeLocals_of_names h]

theorem scopes_closeLocals {events : List Event} {locals : List Local} :
    (closeLocals t id events locals).scopes = t := by
  unfold closeLocals
  simp only
  split <;> rfl

section

variable {params : List Local} {closing : List Event} {body : Body Tag}

theorem Body.scope?_check_ne (hne : id' ≠ id) :
    (body.check t id params closing).scopes.scope? id' = t.scope? id' := by
  rw [Body.check, scopes_closeLocals]
  exact VarDecl.scope?_checkAll_ne _ hne

theorem Body.fault_check (hparams : ∀ l ∈ params, l.name ≠ "")
    (hdecls : ∀ d ∈ body.vars.decls, d.name ≠ "") :
    (body.check t id params closing).fault = none := by
  apply fault_closeLocals
  intro l hl
  rcases List.mem_append.1 hl with hparam | hlocal
  · exact hparams l hparam
  · exact VarDecl.name_ne_of_mem_locals hdecls l hlocal

theorem Body.silent_check_iff (h : t.Holds id returns Γ)
    (hdecls : ∀ d ∈ body.vars.decls, (writtenType? d.type).isSome = true)
    (hclosing : options.Silent closing) :
    options.Silent (body.check t id params closing).events ↔ body.WellTyped Γ returns := by
  obtain ⟨hdeclared, hholds⟩ := @VarDecl.silent_checkAll_iff options t id returns Γ h _ hdecls
  rw [Body.check, silent_closeLocals, Options.silent_append, Options.silent_append, hdeclared,
    and_iff_left hclosing]
  have hblock : ∀ Γ', Declares Γ body.vars.decls Γ' →
      (options.Silent (body.block.check
        ((VarDecl.checkAll t id body.vars.decls).scopes.setting id) .live) ↔
          body.block.WellTyped Γ'.env returns) := by
    intro Γ' hdeclares
    obtain ⟨henv, hreturns⟩ := (hholds Γ' hdeclares).setting
    have hproper := (hholds Γ' hdeclares).proper.env
    rw [← henv] at hproper ⊢
    exact Block.silent_check_iff hproper hreturns .live _
  constructor
  · rintro ⟨⟨Γ', hdeclares⟩, hsilent⟩
    exact ⟨Γ', hdeclares, (hblock Γ' hdeclares).1 hsilent⟩
  · rintro ⟨Γ', hdeclares, htyped⟩
    exact ⟨⟨Γ', hdeclares⟩, (hblock Γ' hdeclares).2 htyped⟩

end

end ScriptAnalysis
