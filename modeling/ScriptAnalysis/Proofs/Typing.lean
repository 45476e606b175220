import ScriptAnalysis.Proofs.Silence
import ScriptAnalysis.Proofs.StaticSemantics

/-!
# Expressions and statements are checked by their typing rules

Where no name is bound to `error`, an expression is walked without a report exactly if it has a
type, and then its type is the one that is found. Statements are walked without a report exactly if
they are well typed.
-/

namespace ScriptAnalysis

/-- Whether nothing that a name stands for is of the type `error`. -/
def Env.Proper (env : Env) : Prop :=
  ∀ name type, env name = some type →
    type ≠ .error ∧ ∀ signature, type = .func signature → signature.returns ≠ .error

theorem Env.Proper.usable? {env : Env} (h : env.Proper) (name : String) :
    env.usable? name = env name := by
  rw [Env.usable?]
  cases hname : env name with
  | none => rfl
  | some type => simp [(h name type hname).1]

namespace Rule

theorem negation_ne_parens (op : String) (operand : Ty) :
    negation op operand ≠ .error .parenthesizedError := by
  unfold negation
  split
  · simp
  · split <;> simp

theorem operation_ne_parens (op : Operator) (left right : Ty) :
    operation op left right ≠ .error .parenthesizedError := by
  unfold operation
  split
  · simp
  · split
    · simp
    · split <;> simp

theorem application_ne_parens (callee : String) (bound : Option Ty) (args : List Ty) :
    application callee bound args ≠ .error .parenthesizedError := by
  unfold application
  split
  · simp
  · simp
  · split
    · simp
    · split <;> simp

theorem firstMismatch?_map (position : Nat) (ps : List Prim) :
    firstMismatch? position (ps.map .prim) ps = none := by
  induction ps generalizing position with
  | nil => rfl
  | cons p ps ih => simp [firstMismatch?, ih]

theorem eq_map_of_firstMismatch? {position : Nat} {args : List Ty} {ps : List Prim}
    (hargs : ∀ type ∈ args, type ≠ .error) (hlength : args.length = ps.length)
    (h : firstMismatch? position args ps = none) : args = ps.map .prim := by
  induction args generalizing position ps with
  | nil =>
    rw [List.length_nil] at hlength
    rw [List.eq_nil_of_length_eq_zero hlength.symm]
    rfl
  | cons got args ih =>
    cases ps with
    | nil => simp at hlength
    | cons p ps =>
      have hgot : got ≠ .error := hargs got (by simp)
      rw [firstMismatch?] at h
      split at h
      · next hmatch =>
        have hp : got = .prim p := hmatch.resolve_left hgot
        rw [List.map_cons, hp,
          ih (fun type ht ↦ hargs type (by simp [ht])) (by simpa using hlength) h]
      · cases h

theorem application_eq_ok {callee : String} {bound : Option Ty} {args : List Ty} {type : Ty}
    (hargs : ∀ type ∈ args, type ≠ .error) (h : application callee bound args = .ok type) :
    ∃ signature, bound = some (.func signature) ∧ args = signature.params.map .prim ∧
      type = .prim signature.returns := by
  unfold application at h
  split at h
  · cases h
  · cases h
  · next signature =>
    split at h
    · cases h
    · next hlength =>
      split at h
      · cases h
      · next hmatch =>
        rw [if_neg fun herror ↦ hargs .error herror rfl, Except.ok.injEq] at h
        exact ⟨signature, rfl, eq_map_of_firstMismatch? hargs (Decidable.not_not.1 hlength) hmatch,
          h.symm⟩

theorem application_map {callee : String} {signature : Signature}
    (h : .error ∉ signature.params.map Ty.prim) :
    application callee (some (.func signature)) (signature.params.map .prim) =
      .ok (.prim signature.returns) := by
  simp [application, firstMismatch?_map, h]

theorem assignment_ne_parens (target : String) (bound : Option Ty) (got : Ty) :
    assignment target bound got ≠ some .parenthesizedError := by
  unfold assignment
  split
  · simp
  · split <;> simp

theorem loopCondition_ne_parens (text : String) (got : Ty) :
    loopCondition text got ≠ some .parenthesizedError := by
  unfold loopCondition
  split <;> simp

theorem branchCondition_ne_parens (text : String) (got : Ty) :
    branchCondition text got ≠ some .parenthesizedError := by
  unfold branchCondition
  split <;> simp

theorem printing_ne_parens (got : Ty) : printing got ≠ some .parenthesizedError := by
  unfold printing
  split <;> simp

theorem returning_ne_parens (scope : String) (returns value : Option Ty) :
    returning scope returns value ≠ some .parenthesizedError := by
  cases value with
  | none =>
    simp only [returning]
    split <;> simp
  | some got =>
    simp only [returning]
    split
    · simp
    · split <;> simp

theorem assignment_eq_none {target : String} {bound : Option Ty} {got : Ty} :
    assignment target bound got = none ↔ bound = some got := by
  cases bound with
  | none => simp [assignment]
  | some declared => simp [assignment]

theorem loopCondition_eq_none {text : String} {got : Ty} :
    loopCondition text got = none ↔ got = .bool := by
  simp [loopCondition]

theorem branchCondition_eq_none {text : String} {got : Ty} :
    branchCondition text got = none ↔ got = .bool := by
  simp [branchCondition]

theorem printing_eq_none {got : Ty} : printing got = none ↔ got ≠ .error := by
  simp [printing]

theorem returning_none_eq_none {scope : String} {returns : Prim} :
    returning scope (some (.prim returns)) none = none ↔ returns = .void := by
  simp [returning]

theorem returning_some_eq_none {scope : String} {returns : Prim} {got : Ty} (hgot : got ≠ .error) :
    returning scope (some (.prim returns)) (some got) = none ↔
      returns ≠ .void ∧ got = .prim returns := by
  by_cases hvoid : returns = .void <;> simp [returning, hvoid, hgot]

end Rule

/-! ## Expressions -/

theorem Inference.silent_of_conclude {options : Options} {node : Tag} {events : List Event}
    {r : Except Violation Ty} (h : options.Silent (conclude node events r).events) :
    options.Silent events := by
  cases r with
  | ok type => exact (Options.silent_append.1 h).1
  | error violation => exact (Options.silent_append.1 h).1

theorem Inference.silent_conclude {options : Options} {node : Tag} {events : List Event}
    {r : Except Violation Ty} (hr : r ≠ .error .parenthesizedError) :
    options.Silent (conclude node events r).events ↔
      options.Silent events ∧ ∃ type, r = .ok type := by
  cases r with
  | ok type => simp [conclude, Event.entry?]
  | error violation => cases violation <;> simp_all [conclude, Options.admits, Event.entry?]

variable {options : Options} {env : Env}

open Inference (silent_conclude)

theorem Expr.infer_call (note : Tag) (callee : String) (args : List (Expr Tag)) :
    (Expr.call note callee args).infer env = .conclude note (Expr.inferAll env args).2
      (Rule.application callee (env.usable? callee) (Expr.inferAll env args).1) := by
  rw [Expr.infer]

theorem Expr.inferAll_cons (e : Expr Tag) (es : List (Expr Tag)) :
    Expr.inferAll env (e :: es) = ((e.infer env).type :: (Expr.inferAll env es).1,
      (e.infer env).events ++ (Expr.inferAll env es).2) := by
  rw [Expr.inferAll]

mutual

/-- What is walked without a report has the type that is found. -/
theorem Expr.hasType_of_silent (hproper : env.Proper) (e : Expr Tag)
    (h : options.Silent (e.infer env).events) :
    (e.infer env).type ≠ .error ∧ HasType env e (e.infer env).type := by
  match e with
  | .int note digits => exact ⟨by simp [Expr.infer, Inference.conclude], .int⟩
  | .string note lexeme => exact ⟨by simp [Expr.infer, Inference.conclude], .string⟩
  | .bool note value => exact ⟨by simp [Expr.infer, Inference.conclude], .bool⟩
  | .ident note name =>
    rw [Expr.infer, hproper.usable?] at h ⊢
    cases hname : env name with
    | none => simp [hname, silent_conclude] at h
    | some type => exact ⟨(hproper name type hname).1, .ident hname⟩
  | .negate note op operand =>
    rw [Expr.infer, silent_conclude (Rule.negation_ne_parens _ _)] at h
    obtain ⟨hsilent, type, htype⟩ := h
    obtain ⟨-, hoperand⟩ := operand.hasType_of_silent hproper hsilent
    rw [Expr.infer, htype]
    rw [Rule.negation] at htype
    split at htype
    · next hminus =>
      obtain ⟨rfl, hint⟩ := hminus
      cases htype
      exact ⟨by simp [Inference.conclude], .minus (hint ▸ hoperand)⟩
    · split at htype
      · next hnot =>
        obtain ⟨rfl, hbool⟩ := hnot
        cases htype
        exact ⟨by simp [Inference.conclude], .not (hbool ▸ hoperand)⟩
      · cases htype
  | .parens note inner =>
    rw [Expr.infer] at h ⊢
    by_cases herror : (inner.infer env).type = .error
    · -- The error inside was reported where it arose.
      have hsilent : options.Silent (inner.infer env).events := Inference.silent_of_conclude h
      exact absurd herror (inner.hasType_of_silent hproper hsilent).1
    · rw [Rule.parens, if_neg herror, silent_conclude (by simp)] at h
      rw [Rule.parens, if_neg herror]
      exact ⟨herror, .parens (inner.hasType_of_silent hproper h.1).2⟩
  | .binary note op left right =>
    rw [Expr.infer, silent_conclude (Rule.operation_ne_parens _ _ _), Options.silent_append] at h
    obtain ⟨⟨hleft, hright⟩, type, htype⟩ := h
    obtain ⟨-, hl⟩ := left.hasType_of_silent hproper hleft
    obtain ⟨-, hr⟩ := right.hasType_of_silent hproper hright
    rw [Expr.infer, htype]
    rw [Rule.operation] at htype
    split at htype
    · next hints =>
      rw [hints.1] at hl
      rw [hints.2] at hr
      by_cases hlevel : op.level = 3
      · rw [if_pos hlevel] at htype
        cases htype
        exact ⟨by simp [Inference.conclude], .comparison hlevel hl hr⟩
      · rw [if_neg hlevel] at htype
        cases htype
        exact ⟨by simp [Inference.conclude], .arithmetic hlevel hl hr⟩
    · split at htype
      · cases htype
      · split at htype <;> cases htype
  | .call note callee args =>
    rw [Expr.infer_call, silent_conclude (Rule.application_ne_parens _ _ _), hproper.usable?] at h
    obtain ⟨hargs, type, htype⟩ := h
    obtain ⟨hne, htypes⟩ := Expr.haveTypes_of_silent hproper args hargs
    rw [Expr.infer_call, hproper.usable?, htype]
    obtain ⟨signature, hcallee, hps, rfl⟩ := Rule.application_eq_ok hne htype
    exact ⟨by simpa [Inference.conclude] using (hproper callee _ hcallee).2 signature rfl,
      .call hcallee (htypes _ hps)⟩

theorem Expr.haveTypes_of_silent (hproper : env.Proper) (es : List (Expr Tag))
    (h : options.Silent (Expr.inferAll env es).2) :
    (∀ type ∈ (Expr.inferAll env es).1, type ≠ .error) ∧
      ∀ ps : List Prim, (Expr.inferAll env es).1 = ps.map .prim → HaveTypes env es ps := by
  match es with
  | [] =>
    refine ⟨by simp [Expr.inferAll], fun ps hps ↦ ?_⟩
    obtain rfl : ps = [] := by simpa [Expr.inferAll] using hps.symm
    exact .nil
  | e :: es =>
    rw [Expr.inferAll_cons, Options.silent_append] at h
    obtain ⟨hne, he⟩ := e.hasType_of_silent hproper h.1
    obtain ⟨hnes, hes⟩ := Expr.haveTypes_of_silent hproper es h.2
    rw [Expr.inferAll_cons]
    refine ⟨by simpa using ⟨hne, hnes⟩, fun ps hps ↦ ?_⟩
    cases ps with
    | nil => simp at hps
    | cons p ps =>
      rw [List.map_cons, List.cons.injEq] at hps
      exact .cons (hps.1 ▸ he) (hes ps hps.2)

end

mutual

/-- What has a type is walked without a report, and that type is found. -/
theorem HasType.infer (hproper : env.Proper) {e : Expr Tag} {type : Ty} :
    HasType env e type → options.Silent (e.infer env).events ∧ (e.infer env).type = type ∧
      type ≠ .error
  | .int | .string | .bool => by simp [Expr.infer, Inference.conclude, Event.entry?]
  | @HasType.ident _ _ note name _ h => by
    rw [Expr.infer, hproper.usable?, h]
    exact ⟨by simp [Inference.conclude, Event.entry?], rfl, (hproper name type h).1⟩
  | .minus h => by
    obtain ⟨hsilent, htype, -⟩ := h.infer hproper
    rw [Expr.infer, htype, silent_conclude (Rule.negation_ne_parens _ _)]
    exact ⟨⟨hsilent, .int, rfl⟩, rfl, by simp⟩
  | .not h => by
    obtain ⟨hsilent, htype, -⟩ := h.infer hproper
    rw [Expr.infer, htype, silent_conclude (Rule.negation_ne_parens _ _)]
    exact ⟨⟨hsilent, .bool, rfl⟩, rfl, by simp⟩
  | .parens h => by
    obtain ⟨hsilent, htype, hne⟩ := h.infer hproper
    rw [Expr.infer, htype, Rule.parens, if_neg hne, silent_conclude (by simp)]
    exact ⟨⟨hsilent, type, rfl⟩, rfl, hne⟩
  | .arithmetic hop hl hr => by
    obtain ⟨hleft, hltype, -⟩ := hl.infer hproper
    obtain ⟨hright, hrtype, -⟩ := hr.infer hproper
    rw [Expr.infer, hltype, hrtype, Rule.operation, if_pos ⟨rfl, rfl⟩, if_neg hop,
      silent_conclude (by simp), Options.silent_append]
    exact ⟨⟨⟨hleft, hright⟩, .int, rfl⟩, rfl, by simp⟩
  | .comparison hop hl hr => by
    obtain ⟨hleft, hltype, -⟩ := hl.infer hproper
    obtain ⟨hright, hrtype, -⟩ := hr.infer hproper
    rw [Expr.infer, hltype, hrtype, Rule.operation, if_pos ⟨rfl, rfl⟩, if_pos hop,
      silent_conclude (by simp), Options.silent_append]
    exact ⟨⟨⟨hleft, hright⟩, .bool, rfl⟩, rfl, by simp⟩
  | @HasType.call _ _ note callee args signature h hargs => by
    obtain ⟨hsilent, htypes, hne⟩ := hargs.infer hproper
    rw [Expr.infer_call, hproper.usable?, h, htypes, Rule.application_map hne,
      silent_conclude (by simp)]
    refine ⟨⟨hsilent, _, rfl⟩, rfl, ?_⟩
    simpa using (hproper callee _ h).2 signature rfl

theorem HaveTypes.infer (hproper : env.Proper) {es : List (Expr Tag)} {ps : List Prim} :
    HaveTypes env es ps → options.Silent (Expr.inferAll env es).2 ∧
      (Expr.inferAll env es).1 = ps.map .prim ∧ .error ∉ ps.map Ty.prim
  | .nil => by simp [Expr.inferAll]
  | .cons h hs => by
    obtain ⟨hfirst, htype, hne⟩ := h.infer hproper
    obtain ⟨hothers, htypes, hnes⟩ := hs.infer hproper
    rw [Expr.inferAll_cons, Options.silent_append, htype, htypes]
    refine ⟨⟨hfirst, hothers⟩, rfl, ?_⟩
    rw [List.map_cons, List.mem_cons, not_or]
    exact ⟨hne.symm, hnes⟩

end

theorem hasType_iff (options : Options) (hproper : env.Proper) {e : Expr Tag} {type : Ty} :
    HasType env e type ↔ options.Silent (e.infer env).events ∧ (e.infer env).type = type := by
  constructor
  · intro h
    obtain ⟨hsilent, htype, -⟩ := h.infer hproper
    exact ⟨hsilent, htype⟩
  · rintro ⟨hsilent, rfl⟩
    exact (e.hasType_of_silent hproper hsilent).2

/-! ## Statements -/

section

variable {setting : Setting} {returns : Prim}

mutual

theorem Stmt.silent_check_iff (hproper : setting.env.Proper)
    (hreturns : setting.returns = some (.prim returns)) (s : Stmt Tag) :
    options.Silent (s.check setting) ↔ s.WellTyped setting.env returns := by
  match s with
  | .assign note target value =>
    rw [Stmt.check, Options.silent_append, Options.silent_verdict (Rule.assignment_ne_parens _ _ _),
      Rule.assignment_eq_none]
    constructor
    · rintro ⟨hsilent, hbound⟩
      exact .assign hbound (value.hasType_of_silent hproper hsilent).2
    · rintro (⟨hbound, hv⟩)
      obtain ⟨hsilent, htype⟩ := (hasType_iff options hproper).1 hv
      exact ⟨hsilent, by rw [htype, hbound]⟩
  | .loop note condition body =>
    rw [Stmt.check, Options.silent_append, Options.silent_append,
      Options.silent_verdict (Rule.loopCondition_ne_parens _ _), Rule.loopCondition_eq_none,
      body.silent_check_iff hproper hreturns .live]
    constructor
    · rintro ⟨⟨hsilent, hbody⟩, htype⟩
      exact .loop ((hasType_iff options hproper).2 ⟨hsilent, htype⟩) hbody
    · intro h
      cases h with
      | loop hc hb =>
        obtain ⟨hsilent, htype⟩ := (hasType_iff options hproper).1 hc
        exact ⟨⟨hsilent, hb⟩, htype⟩
  | .branch note condition whenTrue none =>
    rw [Stmt.check, Options.silent_append, Options.silent_append,
      Options.silent_verdict (Rule.branchCondition_ne_parens _ _), Rule.branchCondition_eq_none,
      whenTrue.silent_check_iff hproper hreturns .live]
    constructor
    · rintro ⟨⟨hsilent, htrue⟩, htype⟩
      exact .branch ((hasType_iff options hproper).2 ⟨hsilent, htype⟩) htrue
    · intro h
      cases h with
      | branch hc ht =>
        obtain ⟨hsilent, htype⟩ := (hasType_iff options hproper).1 hc
        exact ⟨⟨hsilent, ht⟩, htype⟩
  | .branch note condition whenTrue (some whenFalse) =>
    rw [Stmt.check, Options.silent_append, Options.silent_append, Options.silent_append,
      Options.silent_verdict (Rule.branchCondition_ne_parens _ _), Rule.branchCondition_eq_none,
      whenTrue.silent_check_iff hproper hreturns .live,
      whenFalse.silent_check_iff hproper hreturns .live]
    constructor
    · rintro ⟨⟨⟨hsilent, htrue⟩, hfalse⟩, htype⟩
      exact .branchElse ((hasType_iff options hproper).2 ⟨hsilent, htype⟩) htrue hfalse
    · intro h
      cases h with
      | branchElse hc ht hf =>
        obtain ⟨hsilent, htype⟩ := (hasType_iff options hproper).1 hc
        exact ⟨⟨⟨hsilent, ht⟩, hf⟩, htype⟩
  | .print note value =>
    rw [Stmt.check, Options.silent_append, Options.silent_verdict (Rule.printing_ne_parens _),
      Rule.printing_eq_none]
    constructor
    · rintro ⟨hsilent, -⟩
      exact .print (value.hasType_of_silent hproper hsilent).2
    · intro h
      cases h with
      | print hv =>
        obtain ⟨hsilent, htype, hne⟩ := hv.infer hproper
        exact ⟨hsilent, htype ▸ hne⟩
  | .ret note none =>
    rw [Stmt.check, Options.silent_verdict (Rule.returning_ne_parens _ _ _), hreturns,
      Rule.returning_none_eq_none]
    constructor
    · exact .ret
    · intro h
      cases h with
      | ret h => exact h
  | .ret note (some value) =>
    rw [Stmt.check, Options.silent_append, Options.silent_verdict (Rule.returning_ne_parens _ _ _),
      hreturns]
    constructor
    · rintro ⟨hsilent, hreturning⟩
      obtain ⟨hne, hv⟩ := value.hasType_of_silent hproper hsilent
      obtain ⟨hvoid, htype⟩ := (Rule.returning_some_eq_none hne).1 hreturning
      exact .retValue hvoid (htype ▸ hv)
    · intro h
      cases h with
      | retValue hvoid hv =>
        obtain ⟨hsilent, htype, hne⟩ := hv.infer hproper
        refine ⟨hsilent, ?_⟩
        rw [htype]
        exact (Rule.returning_some_eq_none hne).2 ⟨hvoid, rfl⟩
  | .call note callNote callee args =>
    rw [Stmt.check]
    constructor
    · intro hsilent
      exact .call (Expr.hasType_of_silent hproper _ hsilent).2
    · intro h
      cases h with
      | call h => exact (h.infer hproper).1

theorem Block.silent_check_iff (hproper : setting.env.Proper)
    (hreturns : setting.returns = some (.prim returns)) (flow : Flow) (b : Block Tag) :
    options.Silent (b.check setting flow) ↔ b.WellTyped setting.env returns := by
  match b with
  | .mk note stmts =>
    rw [Block.check, Stmt.silent_checkAll_iff hproper hreturns flow stmts]
    constructor
    · exact .mk
    · intro h
      cases h with
      | mk h => exact h

theorem Stmt.silent_checkAll_iff (hproper : setting.env.Proper)
    (hreturns : setting.returns = some (.prim returns)) (flow : Flow) (stmts : List (Stmt Tag)) :
    options.Silent (Stmt.checkAll setting flow stmts) ↔
      Stmt.AllWellTyped setting.env returns stmts := by
  match stmts with
  | [] =>
    rw [Stmt.checkAll]
    exact ⟨fun _ ↦ .nil, fun _ ↦ Options.silent_nil⟩
  | first :: others =>
    have hwarning : options.Silent (flow.warning first.note) := by
      unfold Flow.warning
      split <;> simp [Event.entry?]
    rw [Stmt.checkAll, Options.silent_append, Options.silent_append,
      first.silent_check_iff hproper hreturns,
      Stmt.silent_checkAll_iff hproper hreturns (flow.after first.isReturn) others]
    constructor
    · rintro ⟨⟨-, hfirst⟩, hothers⟩
      exact .cons hfirst hothers
    · intro h
      cases h with
      | cons h hs => exact ⟨⟨hwarning, h⟩, hs⟩

end

end

end ScriptAnalysis
