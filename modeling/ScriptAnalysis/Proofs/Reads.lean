import ScriptAnalysis.Proofs.Propagation

/-!
# When a name is read

A name is read just where a variable of that name stands and can be used. So what a walk over some
nodes reads can be told from the nodes and from what the names are bound to. Declaring other names
changes nothing for a name.
-/

namespace ScriptAnalysis

/-- Whether a node is a variable with a name. -/
def Node.isVariable {α : Type} (name : String) : Node α → Bool
  | .expr (.ident _ other) => other = name
  | _ => false

/-- The warning of a variable or parameter that is not used. -/
def Warning.unused (span : Span) (name : String) : Warning :=
  ⟨span, "W0001", "unused variable or parameter " ++ Text.quote name⟩

/-- The warning of an unused name that an event is. -/
def Event.unused? : Event → Option Warning
  | .warned span (.unused name) => some (.unused span name)
  | _ => none

/-- Whether the events of a walk over some nodes read a name just where the nodes have it, if it can
be used at all, and warn of nothing unused. -/
structure Uses (name : String) (usable : Bool) (nodes : List (Node Tag)) (events : List Event) :
    Prop where
  any_reads : events.any (Event.reads name) = (usable && nodes.any (Node.isVariable name))
  unused?_eq : ∀ event ∈ events, event.unused? = none

/-- Whether events read no name and warn of nothing unused. -/
def Idle (events : List Event) : Prop :=
  ∀ event ∈ events, (∀ name, event.reads name = false) ∧ event.unused? = none

theorem idle_nil : Idle [] := by
  simp [Idle]

theorem idle_append {events events' : List Event} :
    Idle (events ++ events') ↔ Idle events ∧ Idle events' := List.forall_mem_append

theorem idle_verdict (node : Tag) (violation : Option Violation) :
    Idle (verdict node violation) := by
  cases violation with
  | none => exact idle_nil
  | some violation => exact List.forall_mem_singleton.2 ⟨fun _ ↦ rfl, rfl⟩

theorem Flow.idle_warning (flow : Flow) (node : Tag) : Idle (flow.warning node) := by
  unfold Flow.warning
  split
  · exact List.forall_mem_singleton.2 ⟨fun _ ↦ rfl, rfl⟩
  · exact idle_nil

namespace Uses

variable {name : String} {usable : Bool} {node : Node Tag} {nodes nodes' : List (Node Tag)}
  {events events' : List Event}

theorem of_idle (h : Idle events) : Uses name usable [] events := by
  refine ⟨?_, fun event hevent ↦ (h event hevent).2⟩
  rw [List.any_nil, Bool.and_false, List.any_eq_false]
  intro event hevent
  simp [(h event hevent).1 name]

theorem append (h : Uses name usable nodes events) (h' : Uses name usable nodes' events') :
    Uses name usable (nodes ++ nodes') (events ++ events') := by
  refine ⟨?_, List.forall_mem_append.2 ⟨h.unused?_eq, h'.unused?_eq⟩⟩
  rw [List.any_append, List.any_append, h.any_reads, h'.any_reads, Bool.and_or_distrib_left]

theorem below (h : Uses name usable nodes events) (hnode : node.isVariable name = false) :
    Uses name usable (node :: nodes) events := by
  refine ⟨?_, h.unused?_eq⟩
  rw [List.any_cons, hnode, Bool.false_or, h.any_reads]

theorem follow (h : Uses name usable nodes events) (hidle : Idle events') :
    Uses name usable nodes (events ++ events') := by
  have happend := h.append (of_idle hidle)
  rwa [List.append_nil] at happend

theorem lead (hidle : Idle events') (h : Uses name usable nodes events) :
    Uses name usable nodes (events' ++ events) := (of_idle hidle).append h

/-- What ends the inference of a node reads nothing. -/
theorem conclude (h : Uses name usable nodes events) (note : Tag) (r : Except Violation Ty) :
    Uses name usable nodes (Inference.conclude note events r).events := by
  have htyped (type : Ty) : Idle [.typed note type] :=
    List.forall_mem_singleton.2 ⟨fun _ ↦ rfl, rfl⟩
  cases r with
  | ok type => exact h.follow (htyped type)
  | error violation =>
    exact h.follow (idle_append.2 ⟨idle_verdict note (some violation), htyped .error⟩)

end Uses

section

variable {name : String} {nodes : List (Node Tag)} {events : List Event}

theorem Infers.uses {env : Env} (h : Infers env nodes events) :
    Uses name (env.usable? name).isSome nodes events := by
  have hnode (note : Tag) (other : String) :
      [Node.expr (.ident note other)].any (Node.isVariable name) = decide (other = name) :=
    Bool.or_false _
  induction h with
  | nil => exact .of_idle idle_nil
  | append _ _ ih ih' => exact ih.append ih'
  | @read note other type husable =>
    refine Uses.conclude ⟨?_, List.forall_mem_singleton.2 rfl⟩ note _
    rw [hnode]
    by_cases hname : other = name
    · subst hname
      simp [Event.reads, husable]
    · simp [Event.reads, hname]
  | @unread note other husable =>
    refine Uses.conclude ⟨?_, by simp⟩ note _
    rw [hnode]
    by_cases hname : other = name
    · subst hname
      simp [husable]
    · simp [hname]
  | @conclude e r _ _ hident _ _ ih =>
    have hvariable : (Node.expr e).isVariable name = false := by
      cases e with
      | ident note other => exact absurd rfl (hident note other)
      | _ => rfl
    exact (ih.conclude e.note r).below hvariable

theorem Checks.uses {setting : Setting} (h : Checks setting nodes events) :
    Uses name (setting.env.usable? name).isSome nodes events := by
  induction h with
  | infer h => exact h.uses
  | append _ _ ih ih' => exact ih.append ih'
  | @judge s violation _ _ _ _ ih => exact (ih.follow (idle_verdict s.note violation)).below rfl
  | warn flow note _ ih => exact .lead (flow.idle_warning note) ih
  | block b _ ih => exact ih.below rfl

theorem Introduces.uses {env : Env} {d : VarDecl Tag} (h : Introduces env d nodes events) :
    Uses name (env.usable? name).isSome nodes events := by
  have hreported (violation : Violation) : Idle [.reported d.note violation] :=
    idle_verdict d.note (some violation)
  have htyped : Idle [.typed d.note .error] := List.forall_mem_singleton.2 ⟨fun _ ↦ rfl, rfl⟩
  cases h with
  | bound h => exact h.uses.below rfl
  | duplicate h => exact (h.uses.follow (hreported _)).below rfl
  | mistyped type h => exact (h.uses.follow (idle_append.2 ⟨htyped, hreported _⟩)).below rfl

end

theorem Block.uses_check (name : String) (setting : Setting) (flow : Flow) (b : Block Tag) :
    Uses name (setting.env.usable? name).isSome (b.walk fun _ ↦ false) (b.check setting flow) :=
  (b.checks_check setting flow).uses

section

variable {name : String} {t : ScopeTable} {id : ScopeId} {g s : Scope}

/-- A name that is not bound cannot be used. -/
theorem ScopeTable.isSome_usable?_of_unbound (h : (t.resolve? id name).isSome = false) :
    ((t.env id).usable? name).isSome = false := by
  rw [Option.isSome_eq_false_iff, Option.isNone_iff_eq_none] at h
  rw [Env.usable?, ScopeTable.env, h]
  rfl

theorem VarDecl.uses_check (name : String) (d : VarDecl Tag) :
    Uses name ((t.env id).usable? name).isSome (d.walk fun _ ↦ false) (d.check t id).events :=
  (d.introduces_check t id).uses

/-- A declaration does not read what is not bound before it. -/
theorem VarDecl.any_reads_check_of_unbound (h : (t.resolve? id name).isSome = false)
    (d : VarDecl Tag) : (d.check t id).events.any (Event.reads name) = false := by
  rw [(d.uses_check name).any_reads, ScopeTable.isSome_usable?_of_unbound h, Bool.false_and]

/-- Declaring another name leaves a name as it is. -/
theorem VarDecl.env_check_of_ne (h : t.Inside id g s) {d : VarDecl Tag} (hne : d.name ≠ name) :
    (d.check t id).scopes.env id name = t.env id name := by
  unfold ScopeTable.env
  rw [(h.check d).resolve?, h.resolve?, Scope.get?_define, if_neg hne]

theorem VarDecl.env_checkAll_of_notMem (h : t.Inside id g s) {ds : List (VarDecl Tag)}
    (hname : name ∉ ds.map VarDecl.name) :
    (VarDecl.checkAll t id ds).scopes.env id name = t.env id name := by
  induction ds generalizing t s with
  | nil => rfl
  | cons d ds ih =>
    rw [List.map_cons, List.mem_cons, not_or] at hname
    exact (ih (h.check d) hname.2).trans (VarDecl.env_check_of_ne h (Ne.symm hname.1))

theorem VarDecl.uses_checkAll (h : t.Inside id g s) {ds : List (VarDecl Tag)}
    (hname : name ∉ ds.map VarDecl.name) :
    Uses name ((t.env id).usable? name).isSome (ds.flatMap (VarDecl.walk fun _ ↦ false))
      (VarDecl.checkAll t id ds).events := by
  induction ds generalizing t s with
  | nil => exact .of_idle idle_nil
  | cons d ds ih =>
    rw [List.map_cons, List.mem_cons, not_or] at hname
    have hothers := ih (h.check d) hname.2
    have henv := VarDecl.env_check_of_ne h (Ne.symm hname.1)
    rw [Env.usable?, henv] at hothers
    exact (d.uses_check name).append hothers

/-- A declaration binds one name more. -/
theorem VarDecl.isSome_resolve?_check (h : t.Inside id g s) (d : VarDecl Tag) (name : String) :
    ((d.check t id).scopes.resolve? id name).isSome =
      (d.name = name || (t.resolve? id name).isSome) := by
  rw [(h.check d).resolve?, h.resolve?, Scope.get?_define]
  by_cases hname : d.name = name <;> simp [hname]

/-- A variable that no later one replaces is read just where its name stands behind it. What came
before has not read it, since it was not bound yet. -/
theorem VarDecl.any_reads_behind (h : t.Inside id g s) {d : VarDecl Tag} {ds : List (VarDecl Tag)}
    {after : List (Node Tag)} {earlier rest : List Event} (hbound : d.bound t id ≠ .error)
    (hlater : d.name ∉ ds.map VarDecl.name)
    (hearlier : (t.resolve? id d.name).isSome = false → earlier.any (Event.reads d.name) = false)
    (hrest : Uses d.name (((VarDecl.checkAll t id (d :: ds)).scopes.env id).usable? d.name).isSome
      after rest) :
    (earlier ++ (VarDecl.checkAll t id (d :: ds)).events ++ rest).any (Event.reads d.name) =
      (ds.flatMap (VarDecl.walk fun _ ↦ false) ++ after).any (Node.isVariable d.name) := by
  have hinside := h.check d
  have hunbound : (t.resolve? id d.name).isSome = false :=
    Bool.eq_false_iff.2 fun hsome ↦ hbound (if_pos (.inl hsome))
  have husable : (((d.check t id).scopes.env id).usable? d.name).isSome = true := by
    rw [Env.usable?, ScopeTable.env, hinside.resolve?, Scope.get?_define, if_pos rfl]
    simp [Scope.variableSymbol, hbound]
  have hdecls := VarDecl.uses_checkAll hinside hlater
  rw [VarDecl.checkAll, Env.usable?, VarDecl.env_checkAll_of_notMem hinside hlater] at hrest
  have hbehind := hdecls.append hrest
  rw [VarDecl.checkAll, List.append_assoc, List.append_assoc, List.any_append, List.any_append,
    hearlier hunbound, d.any_reads_check_of_unbound hunbound, hbehind.any_reads, husable]
  rfl

end

end ScriptAnalysis
