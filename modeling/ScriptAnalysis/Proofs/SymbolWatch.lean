import Mathlib.Data.List.Forall2
import ScriptAnalysis.Proofs.Reads
import ScriptAnalysis.Proofs.ScopeContents

/-!
# Watching symbols

The watch over the locals of a body can go by symbols. Every definition makes a symbol of its own,
reading a name marks the symbol that the name resolves to, and a symbol that another one replaced is
not warned of. This finds the same unused locals as going by names: a name is watched from the
moment it is bound, it was not read before, and what replaces its symbol is bound to `error`.
-/

namespace ScriptAnalysis

open ScopeTable (globalId mainName)

/-- Which symbols scopes bind names to, as numbers; `next` is that of the next symbol. -/
structure Identities where
  next : Nat
  get? : ScopeId → String → Option Nat

namespace Identities

variable (identities : Identities)

/-- Binds a name to a new symbol. -/
def define (scope : ScopeId) (name : String) : Identities :=
  ⟨identities.next + 1, fun scope' name' ↦
    if scope = scope' ∧ name = name' then some identities.next else identities.get? scope' name'⟩

def resolve? (t : ScopeTable) (scope : ScopeId) (name : String) : Option Nat :=
  (t.outward scope).findSome? (identities.get? · name)

/-- Whether just the symbols of a table have numbers, each one of its own. -/
structure Fits (t : ScopeTable) : Prop where
  isSome_get? : ∀ scope name,
    (identities.get? scope name).isSome = (t.local? scope name).isSome
  lt_next : ∀ scope name number, identities.get? scope name = some number →
    number < identities.next
  injective : ∀ scope name scope' name' number, identities.get? scope name = some number →
    identities.get? scope' name' = some number → scope = scope' ∧ name = name'

end Identities

/-- A local that is watched by its symbol. -/
structure Watched where
  number : Nat
  symbol : Symbol
  span : Span
  read : Bool

namespace Watched

/-- Marks the first of some locals that has a symbol. -/
def markFirst (number : Nat) : List Watched → List Watched
  | [] => []
  | w :: ws =>
    if w.number = number then { w with read := true } :: ws else w :: markFirst number ws

/-- Marks the local with a symbol; the search goes backwards. -/
def mark (number : Nat) (ws : List Watched) : List Watched := (markFirst number ws.reverse).reverse

/-- What happens to the marks at an event in a scope. -/
def follow (identities : Identities) (t : ScopeTable) (scope : ScopeId) (ws : List Watched) :
    Event → List Watched
  | .read name => ((identities.resolve? t scope name).map (mark · ws)).getD ws
  | _ => ws

/-- Warns of the locals that were not read, and stops at one with an empty name. A symbol that is
not the one its scope holds was replaced. -/
def close (identities : Identities) (scope : ScopeId) : List Watched → List Event × Option Fault
  | [] => ([], none)
  | w :: ws =>
    if w.read then close identities scope ws
    else match w.symbol.name.toList.head? with
      | none => ([], some .emptyName)
      | some first =>
        let later := close identities scope ws
        if first = '_' ∨ w.symbol.type = some .error ∨
            identities.get? scope w.symbol.name ≠ some w.number then later
        else (.warned w.span (.unused w.symbol.name) :: later.1, later.2)

end Watched

/-- What is kept beside the scopes while bodies are walked. -/
structure Watch where
  identities : Identities
  locals : List Watched

namespace Watch

variable (watch : Watch) (t : ScopeTable) (scope : ScopeId)

/-- Watches the symbol that a scope binds the name of a local to. -/
def declare (l : Local) : Watch :=
  match t.local? scope l.name, watch.identities.get? scope l.name with
  | some symbol, some number =>
    { watch with locals := watch.locals ++ [⟨number, symbol, l.span, false⟩] }
  | _, _ => watch

def follow (events : List Event) : Watch :=
  { watch with locals := events.foldl (Watched.follow watch.identities t scope) watch.locals }

def define (name : String) : Watch :=
  { watch with identities := watch.identities.define scope name }

/-- Walks inside the child of the global scope that has a name. -/
def within (name : String) (walk : ScopeId → Walk × Watch) : Walk × Watch :=
  (t.within name fun scope ↦ (walk scope).1,
    ((t.childNamed? globalId name).map fun scope ↦ (walk scope).2).getD watch)

/-- Goes on with another walk unless this one stopped early. -/
def andThen (walked : Walk × Watch) (next : ScopeTable → Watch → Walk × Watch) : Walk × Watch :=
  let later := next walked.1.scopes walked.2
  (walked.1.andThen fun _ ↦ later.1, if walked.1.fault.isSome then walked.2 else later.2)

end Watch

def VarDecl.watch (t : ScopeTable) (watch : Watch) (scope : ScopeId) (d : VarDecl Tag) : Watch :=
  let declared := d.check t scope
  let defined := (watch.follow t scope declared.events).define scope d.name
  declared.locals.foldl (·.declare declared.scopes scope) defined

def VarDecl.watchAll (t : ScopeTable) (watch : Watch) (scope : ScopeId) :
    List (VarDecl Tag) → Watch
  | [] => watch
  | first :: others =>
    VarDecl.watchAll (first.check t scope).scopes (first.watch t watch scope) scope others

/-- Walks a body with a watch of its own, and goes back to the locals that were watched before. -/
def Body.watch (t : ScopeTable) (watch : Watch) (scope : ScopeId) (params : List Local)
    (closing : List Event) (body : Body Tag) : Walk × Watch :=
  let opened := params.foldl (·.declare t scope) { watch with locals := [] }
  let declared := VarDecl.checkAll t scope body.vars.decls
  let watched := VarDecl.watchAll t opened scope body.vars.decls
  let ending := body.block.check (declared.scopes.setting scope) .live ++ closing
  let closed := watched.follow declared.scopes scope ending
  let warnings := Watched.close closed.identities scope closed.locals
  (⟨declared.scopes, declared.events ++ ending ++ warnings.1, warnings.2⟩,
    { closed with locals := watch.locals })

def FuncDef.watch (t : ScopeTable) (watch : Watch) (seen : List String) (shadowed : Bool)
    (f : FuncDef Tag) : Walk × Watch :=
  let reports :=
    verdict f.note (if f.name ∈ seen then some (.duplicateFunction f.name) else none)
      ++ Param.duplicates f.name [] f.params
  if shadowed then
    (⟨t, reports ++ [.skipped f.name f.note.line], none⟩, watch)
  else
    let inner := watch.within t f.name fun scope ↦
      f.body.watch t watch scope (Param.locals t scope [] f.params)
        (f.fallThrough (t.setting scope).returns)
    (⟨inner.1.scopes, reports ++ inner.1.events, inner.1.fault⟩, inner.2)

def FuncDef.watchAll (t : ScopeTable) (watch : Watch) (seen : List String) :
    List (FuncDef Tag) → Walk × Watch
  | [] => (⟨t, [], none⟩, watch)
  | first :: others =>
    Watch.andThen (first.watch t watch seen (others.any (·.name = first.name))) fun t watch ↦
      FuncDef.watchAll t watch (first.name :: seen) others

def Script.watch (t : ScopeTable) (watch : Watch) (s : Script Tag) : Walk × Watch :=
  Watch.andThen (FuncDef.watchAll t watch [] s.funcs) fun t watch ↦
    match s.main with
    | none => (⟨t, [], none⟩, watch)
    | some main => watch.within t mainName fun scope ↦ main.watch t watch scope [] []

/-! ## Numbers of symbols -/

namespace ScopeTable

variable {t : ScopeTable} {id : ScopeId} {s : Scope}

theorem local?_define (h : t.scope? id = some s) (name : String) (type : Option Ty)
    (id' : ScopeId) (name' : String) :
    (t.define id name type).local? id' name' =
      if id = id' ∧ name = name' then some (s.variableSymbol name type)
      else t.local? id' name' := by
  unfold local?
  by_cases hid : id = id'
  · subst hid
    rw [scope?_define_self h, h, Option.bind_some, Option.bind_some, Scope.get?_define]
    simp only [true_and]
  · rw [scope?_define_ne (Ne.symm hid), if_neg fun heq ↦ hid heq.1]

theorem outward_of_scope? (h : t.scope? id = some s) : ∃ around, t.outward id = id :: around := by
  have hlt : id < t.size := (List.getElem?_eq_some_iff.1 h).1
  obtain ⟨count, hsize⟩ : ∃ count, t.size = count + 1 :=
    Nat.exists_eq_succ_of_ne_zero (Nat.ne_zero_of_lt hlt)
  rw [outward, hsize, outwardUpTo, h]
  exact ⟨_, rfl⟩

/-- The names that the scopes of a table bind, each with its scope. -/
def slots (t : ScopeTable) : List (ScopeId × String) :=
  t.scopes.zipIdx.flatMap fun scope ↦ scope.1.symbols.keys.map (scope.2, ·)

theorem mem_slots {name : String} : (id, name) ∈ t.slots ↔ (t.local? id name).isSome = true := by
  have hscope (scope : Scope) :
      name ∈ scope.symbols.keys ↔ (scope.symbols[name]?).isSome = true := by
    rw [Std.ExtTreeMap.mem_keys, Std.ExtTreeMap.mem_iff_isSome_getElem?]
  simp only [slots, List.mem_flatMap, Prod.exists, List.mem_zipIdx_iff_getElem?, List.mem_map,
    Prod.mk.injEq, local?, scope?, Option.isSome_bind, Option.any_eq_true, Scope.get?]
  constructor
  · rintro ⟨scope, _, hget, _, hname, rfl, rfl⟩
    exact ⟨scope, hget, (hscope scope).1 hname⟩
  · rintro ⟨scope, hget, hname⟩
    exact ⟨scope, id, hget, name, (hscope scope).2 hname, rfl, rfl⟩

/-- The symbols of a table can be numbered. -/
theorem exists_fits (t : ScopeTable) : ∃ identities : Identities, identities.Fits t := by
  let number (id : ScopeId) (name : String) : Option Nat :=
    if (id, name) ∈ t.slots then some (t.slots.idxOf (id, name)) else none
  have hnumber {id : ScopeId} {name : String} {n : Nat} (h : number id name = some n) :
      (id, name) ∈ t.slots ∧ t.slots.idxOf (id, name) = n := by
    simpa [number] using h
  refine ⟨⟨t.slots.length, number⟩, ?_, ?_, ?_⟩
  · intro id name
    rw [Bool.eq_iff_iff, ← mem_slots]
    simp [number]
  · intro id name n h
    obtain ⟨hmem, rfl⟩ := hnumber h
    exact List.idxOf_lt_length_of_mem hmem
  · intro id name id' name' n h h'
    obtain ⟨hmem, hidx⟩ := hnumber h
    obtain ⟨-, hidx'⟩ := hnumber h'
    exact Prod.mk.inj ((List.idxOf_inj hmem).1 (hidx.trans hidx'.symm))

end ScopeTable

namespace Identities

variable {identities : Identities} {t : ScopeTable} {id : ScopeId} {s : Scope} {name : String}
  {number : Nat}

theorem resolve?_of_get? (h : t.scope? id = some s)
    (hnumber : identities.get? id name = some number) :
    identities.resolve? t id name = some number := by
  obtain ⟨around, houtward⟩ := ScopeTable.outward_of_scope? h
  rw [resolve?, houtward, List.findSome?_cons, hnumber]

theorem exists_get?_of_resolve? (h : identities.resolve? t id name = some number) :
    ∃ id', identities.get? id' name = some number := by
  obtain ⟨id', -, hnumber⟩ := List.exists_of_findSome?_eq_some h
  exact ⟨id', hnumber⟩

theorem Fits.define (h : identities.Fits t) (hscope : t.scope? id = some s) (name : String)
    (type : Option Ty) : (identities.define id name).Fits (t.define id name type) where
  isSome_get? id' name' := by
    rw [ScopeTable.local?_define hscope, Identities.define]
    dsimp only
    split
    · rfl
    · exact h.isSome_get? id' name'
  lt_next id' name' number hnumber := by
    rw [Identities.define] at hnumber ⊢
    dsimp only at hnumber ⊢
    split at hnumber
    · cases hnumber
      exact Nat.lt_succ_self _
    · exact Nat.lt_succ_of_lt (h.lt_next id' name' number hnumber)
  injective id' name' id'' name'' number hnumber hnumber' := by
    rw [Identities.define] at hnumber hnumber'
    dsimp only at hnumber hnumber'
    split at hnumber <;> split at hnumber'
    · next hslot hslot' =>
      exact ⟨hslot.1.symm.trans hslot'.1, hslot.2.symm.trans hslot'.2⟩
    · cases hnumber
      exact absurd (h.lt_next _ _ _ hnumber') (Nat.lt_irrefl _)
    · cases hnumber'
      exact absurd (h.lt_next _ _ _ hnumber) (Nat.lt_irrefl _)
    · exact h.injective _ _ _ _ number hnumber hnumber'

end Identities

/-! ## Both watches in step -/

namespace Watched

variable {identities : Identities} {t : ScopeTable} {id : ScopeId} {s : Scope}
  {events : List Event} {l : Local} {w : Watched} {locals : List Local} {ws : List Watched}

/-- What happens to a local at an event if no other has its symbol. -/
def heed (identities : Identities) (t : ScopeTable) (scope : ScopeId) (event : Event)
    (w : Watched) : Watched :=
  match event with
  | .read name =>
    if identities.resolve? t scope name = some w.number then { w with read := true } else w
  | _ => w

/-- An event changes no more of a local than its mark. -/
theorem exists_heed_eq (identities : Identities) (t : ScopeTable) (id : ScopeId) (event : Event)
    (w : Watched) : ∃ read, w.heed identities t id event = { w with read := read } := by
  unfold heed
  split
  · split
    · exact ⟨true, rfl⟩
    · exact ⟨w.read, rfl⟩
  · exact ⟨w.read, rfl⟩

theorem number_heed (event : Event) (w : Watched) :
    (w.heed identities t id event).number = w.number := by
  obtain ⟨read, hheed⟩ := exists_heed_eq identities t id event w
  rw [hheed]

theorem markFirst_eq_map {number : Nat} (h : (ws.map Watched.number).Nodup) :
    markFirst number ws =
      ws.map fun w ↦ if w.number = number then { w with read := true } else w := by
  induction ws with
  | nil => rfl
  | cons w ws ih =>
    obtain ⟨hw, hws⟩ := List.nodup_cons.1 h
    rw [markFirst, List.map_cons, ih hws]
    by_cases heq : w.number = number
    · have hothers : ∀ other ∈ ws, (if other.number = number then
          { other with read := true } else other) = other := by
        intro other hother
        apply if_neg
        rintro rfl
        exact hw (heq ▸ List.mem_map_of_mem hother)
      rw [if_pos heq, if_pos heq, List.map_congr_left hothers, List.map_id']
    · rw [if_neg heq, if_neg heq]

theorem follow_eq_map (h : (ws.map Watched.number).Nodup) (event : Event) :
    follow identities t id ws event = ws.map (heed identities t id event) := by
  cases event with
  | read name =>
    rw [follow]
    cases hresolve : identities.resolve? t id name with
    | none =>
      have hheed : heed identities t id (.read name) = fun w ↦ w := by
        funext w
        rw [heed, hresolve]
        rfl
      rw [hheed, List.map_id']
      rfl
    | some number =>
      have hreverse : (ws.reverse.map Watched.number).Nodup := by
        rw [List.map_reverse]
        exact List.nodup_reverse.2 h
      have hheed : heed identities t id (.read name) =
          fun w ↦ if w.number = number then { w with read := true } else w := by
        funext w
        simp only [heed, hresolve, Option.some.injEq, eq_comm]
      rw [Option.map_some, Option.getD_some, mark, markFirst_eq_map hreverse, List.map_reverse,
        List.reverse_reverse, hheed]
  | _ => exact (List.map_id' ws).symm

/-- Whether a watched symbol stands for a local: it is still bound and marked if the name was read,
or it was replaced, and the name is bound to `error`. -/
inductive StandsFor (identities : Identities) (t : ScopeTable) (scope : ScopeId)
    (events : List Event) : Local → Watched → Prop
  | live {l : Local} {w : Watched} (hname : w.symbol.name = l.name) (hspan : w.span = l.span)
      (hnumber : identities.get? scope l.name = some w.number)
      (hsymbol : t.local? scope l.name = some w.symbol)
      (hread : w.read = events.any (Event.reads l.name)) :
      StandsFor identities t scope events l w
  | replaced {l : Local} {w : Watched} (hname : w.symbol.name = l.name)
      (hlt : w.number < identities.next)
      (hnumber : ∀ scope' name, identities.get? scope' name ≠ some w.number)
      (herror : (t.local? scope l.name).bind (·.type) = some .error) :
      StandsFor identities t scope events l w

namespace StandsFor

theorem isSome_local? (h : StandsFor identities t id events l w) :
    (t.local? id l.name).isSome = true := by
  cases h with
  | live _ _ _ hsymbol _ => exact Option.isSome_of_eq_some hsymbol
  | replaced _ _ _ herror =>
    obtain ⟨symbol, hsymbol, -⟩ := Option.bind_eq_some_iff.1 herror
    exact Option.isSome_of_eq_some hsymbol

/-- A symbol is marked just if its name is read: while it is bound, the name resolves to it and no
other name does. -/
theorem heed (hfits : identities.Fits t) (hscope : t.scope? id = some s)
    (h : StandsFor identities t id events l w) (event : Event) :
    StandsFor identities t id (events ++ [event]) l (w.heed identities t id event) := by
  cases h with
  | live hname hspan hnumber hsymbol hread =>
    have hany : (events ++ [event]).any (Event.reads l.name) =
        (w.read || event.reads l.name) := by
      rw [List.any_append, hread, List.any_cons, List.any_nil, Bool.or_false]
    cases event with
    | read name =>
      by_cases heq : name = l.name
      · subst heq
        have hmarked : w.heed identities t id (.read l.name) = { w with read := true } :=
          if_pos (Identities.resolve?_of_get? hscope hnumber)
        rw [hmarked]
        refine .live hname hspan hnumber hsymbol ?_
        rw [hany]
        simp [Event.reads]
      · have hkept : w.heed identities t id (.read name) = w := by
          apply if_neg
          intro hresolve
          obtain ⟨id', hother⟩ := Identities.exists_get?_of_resolve? hresolve
          exact heq (hfits.injective _ _ _ _ _ hother hnumber).2
        rw [hkept]
        refine .live hname hspan hnumber hsymbol ?_
        rw [hany]
        simp [Event.reads, heq]
    | _ =>
      refine .live hname hspan hnumber hsymbol ?_
      rw [hany]
      exact (Bool.or_false _).symm
  | replaced hname hlt hnumber herror =>
    obtain ⟨read, hheed⟩ := exists_heed_eq identities t id event w
    rw [hheed]
    exact .replaced hname hlt hnumber herror

/-- Defining a name replaces its symbol, and leaves the others. -/
theorem define (hfits : identities.Fits t) (hscope : t.scope? id = some s)
    (h : StandsFor identities t id events l w) {name : String} {type : Option Ty}
    (htype : name = l.name → type = some .error) :
    StandsFor (identities.define id name) (t.define id name type) id events l w := by
  have hlocal := ScopeTable.local?_define hscope name type id l.name
  have herror (heq : name = l.name) :
      ((t.define id name type).local? id l.name).bind (·.type) = some .error := by
    rw [hlocal, if_pos ⟨rfl, heq⟩, Option.bind_some, Scope.type_variableSymbol, htype heq]
  have hgone (hlt : w.number < identities.next) {id' : ScopeId} {name' : String}
      (hnumber : ¬ (id = id' ∧ name = name') → identities.get? id' name' ≠ some w.number) :
      (identities.define id name).get? id' name' ≠ some w.number := by
    unfold Identities.define
    dsimp only
    split
    · intro heq
      exact hlt.ne (Option.some.inj heq).symm
    · next hslot => exact hnumber hslot
  cases h with
  | live hname hspan hnumber hsymbol hread =>
    have hlt := hfits.lt_next _ _ _ hnumber
    by_cases heq : name = l.name
    · refine .replaced hname (Nat.lt_succ_of_lt hlt) ?_ (herror heq)
      intro id' name'
      refine hgone hlt fun hslot hother ↦ hslot ?_
      obtain ⟨rfl, rfl⟩ := hfits.injective _ _ _ _ _ hnumber hother
      exact ⟨rfl, heq⟩
    · have hslot : ¬ (id = id ∧ name = l.name) := fun hslot ↦ heq hslot.2
      refine .live hname hspan ?_ ?_ hread
      · exact (if_neg hslot).trans hnumber
      · rw [hlocal, if_neg hslot, hsymbol]
  | replaced hname hlt hnumber herror' =>
    refine .replaced hname (Nat.lt_succ_of_lt hlt) ?_ ?_
    · intro id' name'
      exact hgone hlt fun _ ↦ hnumber id' name'
    · by_cases heq : name = l.name
      · exact herror heq
      · rw [hlocal, if_neg fun hslot ↦ heq hslot.2, herror']

end StandsFor

/-- The symbol of another name is not watched. -/
theorem number_notMem {name : String} {number : Nat} (hfits : identities.Fits t)
    (h : List.Forall₂ (StandsFor identities t id events) locals ws)
    (hnumber : identities.get? id name = some number) (hname : name ∉ locals.map Local.name) :
    number ∉ ws.map Watched.number := by
  induction h with
  | nil => exact List.not_mem_nil
  | @cons l w locals ws hfirst _ ih =>
    rw [List.map_cons, List.mem_cons, not_or] at hname ⊢
    refine ⟨?_, ih hname.2⟩
    rintro rfl
    cases hfirst with
    | live _ _ hown _ _ => exact hname.1 (hfits.injective _ _ _ _ _ hnumber hown).2
    | replaced _ _ hnone _ => exact hnone _ _ hnumber

/-- The warnings of the symbols that were not read are those of the names that were not. -/
theorem close_eq (h : List.Forall₂ (StandsFor identities t id events) locals ws)
    (hnames : ∀ l ∈ locals, l.name ≠ "") :
    close identities id ws =
      ((locals.filter fun l ↦ !events.any (Event.reads l.name)).flatMap (Local.warning t id),
        none) := by
  induction h with
  | nil => rfl
  | @cons l w locals ws hfirst _ ih =>
    obtain ⟨hname, hnames⟩ := List.forall_mem_cons.1 hnames
    obtain ⟨first, hhead⟩ : ∃ first, l.name.toList.head? = some first := by
      rw [← Option.isSome_iff_exists, List.isSome_head?]
      exact fun hnil ↦ hname (String.toList_eq_nil_iff.1 hnil)
    rw [close, ih hnames, List.filter_cons]
    cases hfirst with
    | live hown hspan hnumber hsymbol hread =>
      rw [hread]
      cases hany : events.any (Event.reads l.name) with
      | true => rfl
      | false =>
        have hbound : (t.local? id l.name).bind (·.type) = w.symbol.type := by
          rw [hsymbol, Option.bind_some]
        simp only [hown, hhead, hnumber, hspan, Local.warning, hbound, Bool.false_eq_true,
          if_false, Bool.not_false, if_true, List.flatMap_cons, ne_eq, not_true, or_false,
          Option.some.injEq]
        split <;> rfl
    | replaced hown _ hnumber herror =>
      have hwarning : l.warning t id = [] := if_pos (.inr herror)
      have hskip (unread : Bool) (others : List Local) :
          (if unread then l :: others else others).flatMap (Local.warning t id) =
            others.flatMap (Local.warning t id) := by
        split
        · rw [List.flatMap_cons, hwarning, List.nil_append]
        · rfl
      simp only [hskip, hown, hhead, ne_eq, hnumber, not_false_eq_true, or_true, if_true, ite_self]

end Watched

/-- Whether the watch over symbols is in step with the one over names, after some events. -/
structure Watch.InStep (t : ScopeTable) (scope : ScopeId) (events : List Event)
    (locals : List Local) (watch : Watch) : Prop where
  fits : watch.identities.Fits t
  nodup : (watch.locals.map Watched.number).Nodup
  standsFor : List.Forall₂ (Watched.StandsFor watch.identities t scope events) locals watch.locals

namespace Watch.InStep

variable {t : ScopeTable} {id : ScopeId} {g s : Scope} {events : List Event}
  {locals : List Local} {watch : Watch}

theorem follow (h : watch.InStep t id events locals) (hscope : t.scope? id = some s)
    (later : List Event) : (watch.follow t id later).InStep t id (events ++ later) locals := by
  induction later generalizing watch events with
  | nil =>
    rw [List.append_nil]
    exact h
  | cons event later ih =>
    have hmap := @Watched.follow_eq_map watch.identities t id _ h.nodup event
    have hstep : Watch.InStep t id (events ++ [event]) locals
        { watch with locals := Watched.follow watch.identities t id watch.locals event } := by
      refine ⟨h.fits, ?_, ?_⟩
      · rw [hmap, List.map_map]
        simpa only [Function.comp_def, Watched.number_heed] using h.nodup
      · rw [hmap, List.forall₂_map_right_iff]
        exact h.standsFor.imp fun l w hw ↦ hw.heed h.fits hscope event
    rw [List.append_cons]
    exact ih hstep

theorem define (h : watch.InStep t id events locals) (hscope : t.scope? id = some s)
    {name : String} {type : Option Ty}
    (htype : name ∈ locals.map Local.name → type = some .error) :
    (watch.define id name).InStep (t.define id name type) id events locals := by
  refine ⟨h.fits.define hscope name type, h.nodup, ?_⟩
  have hmem := (List.forall₂_and_left (p := (· ∈ locals)) _ _).2 ⟨fun _ hl ↦ hl, h.standsFor⟩
  refine hmem.imp fun l w hw ↦ hw.2.define h.fits hscope fun heq ↦ htype ?_
  rw [heq]
  exact List.mem_map_of_mem hw.1

theorem declare (h : watch.InStep t id events locals) {l : Local} {symbol : Symbol}
    (hsymbol : t.local? id l.name = some symbol) (hname : symbol.name = l.name)
    (hnew : l.name ∉ locals.map Local.name) (hread : events.any (Event.reads l.name) = false) :
    (watch.declare t id l).InStep t id events (locals ++ [l]) := by
  obtain ⟨number, hnumber⟩ : ∃ number, watch.identities.get? id l.name = some number := by
    rw [← Option.isSome_iff_exists, h.fits.isSome_get?, hsymbol]
    rfl
  have hdeclare : watch.declare t id l =
      { watch with locals := watch.locals ++ [⟨number, symbol, l.span, false⟩] } := by
    rw [Watch.declare, hsymbol, hnumber]
  have hfresh := Watched.number_notMem h.fits h.standsFor hnumber hnew
  rw [hdeclare]
  refine ⟨h.fits, ?_, ?_⟩
  · rw [List.map_append]
    exact List.concat_eq_append ▸ h.nodup.concat hfresh
  · exact List.rel_append h.standsFor
      (.cons (.live hname rfl hnumber hsymbol hread.symm) .nil)

/-- Locals that are declared together have names of their own. -/
theorem declareAll {ls : List Local} (h : watch.InStep t id events locals)
    (hbound : ∀ l ∈ ls, ∃ symbol, t.local? id l.name = some symbol ∧ symbol.name = l.name)
    (hnodup : ((locals ++ ls).map Local.name).Nodup)
    (hread : ∀ l ∈ ls, events.any (Event.reads l.name) = false) :
    (ls.foldl (·.declare t id) watch).InStep t id events (locals ++ ls) := by
  induction ls generalizing watch locals with
  | nil =>
    rw [List.append_nil]
    exact h
  | cons l ls ih =>
    rw [List.forall_mem_cons] at hbound hread
    obtain ⟨⟨symbol, hsymbol, hname⟩, hbound⟩ := hbound
    have hnew : l.name ∉ locals.map Local.name := by
      rw [List.map_append, List.nodup_append] at hnodup
      exact fun hmem ↦ hnodup.2.2 _ hmem _ List.mem_cons_self rfl
    rw [List.append_cons] at hnodup ⊢
    exact ih (h.declare hsymbol hname hnew hread.1) hbound hnodup hread.2

/-- The names of locals are bound. -/
theorem isSome_resolve? (h : watch.InStep t id events locals) (hinside : t.Inside id g s)
    {name : String} (hname : name ∈ locals.map Local.name) :
    (t.resolve? id name).isSome = true := by
  obtain ⟨l, hl, rfl⟩ := List.mem_map.1 hname
  have hall := (List.forall₂_and_left (p := fun l ↦ (t.local? id l.name).isSome = true) _ _).1
    (h.standsFor.imp fun l w hw ↦ ⟨hw.isSome_local?, hw⟩)
  have hlocal := hall.1 l hl
  rw [ScopeTable.local?, hinside.inner, Option.bind_some] at hlocal
  rw [hinside.resolve?, Option.isSome_or, hlocal, Bool.true_or]

theorem decl (h : watch.InStep t id events locals) (hinside : t.Inside id g s)
    (hunread : ∀ name, (t.resolve? id name).isSome = false →
      events.any (Event.reads name) = false) (d : VarDecl Tag) :
    (d.watch t watch id).InStep (d.check t id).scopes id (events ++ (d.check t id).events)
      (locals ++ (d.check t id).locals) := by
  have hfollow := h.follow hinside.inner (d.check t id).events
  have hwatch : d.watch t watch id = (d.check t id).locals.foldl
      (·.declare (d.check t id).scopes id)
      ((watch.follow t id (d.check t id).events).define id d.name) := rfl
  rw [hwatch, d.scopes_check, d.locals_check]
  by_cases hwrong : (t.resolve? id d.name).isSome = true ∨
      ∃ e ∈ d.init, (e.infer (t.env id)).type ≠ .prim (Prim.declared d.type)
  · have hbound : d.bound t id = .error := if_pos hwrong
    rw [if_pos hwrong, hbound, List.append_nil]
    exact hfollow.define hinside.inner fun _ ↦ rfl
  · have hunbound : (t.resolve? id d.name).isSome = false :=
      Bool.eq_false_iff.2 fun hsome ↦ hwrong (.inl hsome)
    have hnew : d.name ∉ locals.map Local.name := fun hmem ↦
      hwrong (.inl (h.isSome_resolve? hinside hmem))
    rw [if_neg hwrong]
    have hsymbol : (t.define id d.name (some (.prim (d.bound t id)))).local? id d.name =
        some (s.variableSymbol d.name (some (.prim (d.bound t id)))) := by
      rw [ScopeTable.local?_define hinside.inner, if_pos ⟨rfl, rfl⟩]
    have hread : (events ++ (d.check t id).events).any (Event.reads d.name) = false := by
      rw [List.any_append, hunread _ hunbound, d.any_reads_check_of_unbound hunbound]
      rfl
    exact @declare _ _ _ _ _ (hfollow.define hinside.inner (absurd · hnew))
      ⟨d.name, d.note.span⟩ _ hsymbol rfl hnew hread

theorem declAll (h : watch.InStep t id events locals) (hinside : t.Inside id g s)
    (hunread : ∀ name, (t.resolve? id name).isSome = false →
      events.any (Event.reads name) = false) (ds : List (VarDecl Tag)) :
    (VarDecl.watchAll t watch id ds).InStep (VarDecl.checkAll t id ds).scopes id
      (events ++ (VarDecl.checkAll t id ds).events)
      (locals ++ (VarDecl.checkAll t id ds).locals) := by
  induction ds generalizing t s watch events locals with
  | nil =>
    rw [VarDecl.checkAll, List.append_nil, List.append_nil]
    exact h
  | cons d ds ih =>
    have hunread' : ∀ name, ((d.check t id).scopes.resolve? id name).isSome = false →
        (events ++ (d.check t id).events).any (Event.reads name) = false := by
      intro name hname
      rw [VarDecl.isSome_resolve?_check hinside, Bool.or_eq_false_iff] at hname
      rw [List.any_append, hunread name hname.2, d.any_reads_check_of_unbound hname.2]
      rfl
    rw [VarDecl.checkAll, ← List.append_assoc, ← List.append_assoc]
    exact ih (h.decl hinside hunread d) (hinside.check d) hunread'

end Watch.InStep

theorem Param.nodup_locals {t : ScopeTable} {id : ScopeId} (seen : List String)
    (ps : List (Param Tag)) :
    ((Param.locals t id seen ps).map Local.name).Nodup ∧
      ∀ l ∈ Param.locals t id seen ps, l.name ∉ seen ∧ (t.local? id l.name).isSome = true := by
  induction ps generalizing seen with
  | nil => exact ⟨List.nodup_nil, by simp [Param.locals]⟩
  | cons p ps ih =>
    obtain ⟨hnodup, hlocals⟩ := ih (p.name :: seen)
    have hlater : ∀ l ∈ Param.locals t id (p.name :: seen) ps,
        l.name ∉ seen ∧ (t.local? id l.name).isSome = true := fun l hl ↦
      ⟨fun hmem ↦ (hlocals l hl).1 (List.mem_cons_of_mem _ hmem), (hlocals l hl).2⟩
    rw [Param.locals]
    split
    · next hfirst =>
      refine ⟨List.nodup_cons.2 ⟨?_, hnodup⟩, List.forall_mem_cons.2 ⟨hfirst, hlater⟩⟩
      intro hmem
      obtain ⟨l, hl, hname⟩ := List.mem_map.1 hmem
      exact (hlocals l hl).1 (hname ▸ List.mem_cons_self)
    · exact ⟨hnodup, hlater⟩

/-- The watch over the symbols of a body finds what the watch over its names finds, and leaves the
locals that were watched before. -/
theorem Body.watch_eq {t : ScopeTable} {id : ScopeId} {g : Scope} {name : String}
    {returns : Option Ty} {ps : List (Param Tag)} {body : Body Tag} {watch : Watch}
    (h : t.Inside id g (Param.openScope name returns ps)) (hfits : watch.identities.Fits t)
    (hps : ∀ p ∈ ps, p.name ≠ "") (hbody : ∀ d ∈ body.vars.decls, d.name ≠ "")
    (closing : List Event) :
    ∃ identities : Identities,
      identities.Fits (body.check t id (Param.locals t id [] ps) closing).scopes ∧
      body.watch t watch id (Param.locals t id [] ps) closing =
        (body.check t id (Param.locals t id [] ps) closing, ⟨identities, watch.locals⟩) := by
  obtain ⟨hnodup, hlocals⟩ := @Param.nodup_locals t id [] ps
  have hbound : ∀ l ∈ Param.locals t id [] ps,
      ∃ symbol, t.local? id l.name = some symbol ∧ symbol.name = l.name := by
    intro l hl
    have hsome := (hlocals l hl).2
    have hlocal : t.local? id l.name = (Param.openScope name returns ps).get? l.name := by
      rw [ScopeTable.local?, h.inner, Option.bind_some]
    rw [hlocal] at hsome ⊢
    obtain ⟨i, p, hp, hname⟩ := exists_lastAt ((Param.isSome_get?_openScope name).1 hsome)
    rw [← hname, Param.get?_openScope_of_lastAt hp]
    exact ⟨_, rfl, rfl⟩
  have hempty : Watch.InStep t id [] [] { watch with locals := [] } := ⟨hfits, .nil, .nil⟩
  have hopened := hempty.declareAll hbound hnodup fun _ _ ↦ rfl
  have hdeclared := hopened.declAll h (fun _ _ ↦ rfl) body.vars.decls
  let declared := VarDecl.checkAll t id body.vars.decls
  let ending := body.block.check (declared.scopes.setting id) .live ++ closing
  have hlt : id < declared.scopes.size := by
    rw [VarDecl.size_checkAll]
    exact (List.getElem?_eq_some_iff.1 h.inner).1
  have hclosed := hdeclared.follow (List.getElem?_eq_getElem hlt) ending
  have hnames : ∀ l ∈ Param.locals t id [] ps ++ declared.locals, l.name ≠ "" :=
    List.forall_mem_append.2
      ⟨Param.name_ne_of_mem_locals hps, VarDecl.name_ne_of_mem_locals hbody⟩
  have hcheck : body.check t id (Param.locals t id [] ps) closing =
      closeLocals declared.scopes id (declared.events ++ ending)
        (Param.locals t id [] ps ++ declared.locals) := by
    rw [Body.check, List.append_assoc]
  rw [hcheck, closeLocals_of_names hnames]
  refine ⟨_, hclosed.fits, ?_⟩
  rw [Body.watch, Watched.close_eq hclosed.standsFor hnames]
  rfl

namespace Watch

variable {t : ScopeTable} {watch watch' : Watch} {walk : Walk}

theorem within_eq {name : String} {id : ScopeId} {watched : ScopeId → Walk × Watch}
    {inner : ScopeId → Walk} (hchild : t.childNamed? globalId name = some id)
    (h : watched id = (inner id, watch')) :
    watch.within t name watched = (t.within name inner, watch') := by
  unfold Watch.within ScopeTable.within
  rw [hchild]
  simp only [h, Option.map_some, Option.getD_some]

theorem andThen_eq {next : ScopeTable → Watch → Walk × Watch} (next' : ScopeTable → Walk)
    (hfault : walk.fault = none) (h : next walk.scopes watch = (next' walk.scopes, watch')) :
    Watch.andThen (walk, watch) next = (walk.andThen next', watch') := by
  unfold Watch.andThen
  simp only [h, Walk.andThen_of_fault hfault, hfault, Option.isSome_none, Bool.false_eq_true,
    if_false]

end Watch

section

variable {t : ScopeTable} {g : Scope} {next : ScopeId} {watch : Watch}

theorem FuncDef.watch_eq {f : FuncDef Tag} (hchild : t.childNamed? globalId f.name = some next)
    (hinside : t.Inside next g f.ownScope) (hfits : watch.identities.Fits t) (hf : f.Written)
    (seen : List String) :
    ∃ identities : Identities, identities.Fits (f.check t seen false).scopes ∧
      f.watch t watch seen false = (f.check t seen false, ⟨identities, watch.locals⟩) := by
  obtain ⟨identities, hfits', hbody⟩ := Body.watch_eq hinside hfits (fun p hp ↦ (hf.params p hp).1)
    (fun d hd ↦ (hf.body d hd).1) (f.fallThrough (t.setting next).returns)
  have hscopes : (f.check t seen false).scopes = (f.checkBody t next).scopes :=
    (ScopeTable.within_of_child hchild).1
  refine ⟨identities, hscopes ▸ hfits', ?_⟩
  have hinner : watch.within t f.name (fun scope ↦
      f.body.watch t watch scope (Param.locals t scope [] f.params)
        (f.fallThrough (t.setting scope).returns)) =
      (t.within f.name fun scope ↦ f.checkBody t scope, ⟨identities, watch.locals⟩) :=
    Watch.within_eq hchild hbody
  unfold FuncDef.watch
  rw [hinner]
  rfl

/-- Watching the symbols of definitions goes through them as watching their names does. -/
theorem FuncDef.watchAll_eq {fs : List (FuncDef Tag)} (h : t.Ready g next fs)
    (htop : g.parent = none) (hfits : watch.identities.Fits t) (hfs : ∀ f ∈ fs, f.Written)
    (seen : List String) :
    ∃ identities : Identities, identities.Fits (FuncDef.checkAll t seen fs).scopes ∧
      FuncDef.watchAll t watch seen fs =
        (FuncDef.checkAll t seen fs, ⟨identities, watch.locals⟩) := by
  induction fs generalizing t watch seen next with
  | nil => exact ⟨watch.identities, hfits, rfl⟩
  | cons f fs ih =>
    rw [List.forall_mem_cons] at hfs
    rw [FuncDef.checkAll, FuncDef.watchAll]
    by_cases hname : f.name ∈ fs.map FuncDef.name
    · have hany : fs.any (·.name = f.name) = true := by simpa using hname
      have hwatch : f.watch t watch seen true = (f.check t seen true, watch) := rfl
      obtain ⟨identities, hfits', hlater⟩ :=
        @ih (f.check t seen true).scopes _ watch (h.rest fun _ _ ↦ rfl) hfits hfs.2 (f.name :: seen)
      rw [hany, hwatch, Watch.andThen_eq (FuncDef.checkAll · (f.name :: seen) fs) rfl hlater]
      exact ⟨identities, hfits', rfl⟩
    · have hany : fs.any (·.name = f.name) = false := by simpa using hname
      have hlast : LastAt FuncDef.name (f :: fs) 0 f := lastAt_zero.2 ⟨rfl, hname⟩
      have hchild : t.childNamed? globalId f.name = some next :=
        (ScopeTable.childNamed?_of_scope? h.outer).trans (h.child 0 f hlast)
      have hinside : t.Inside next g f.ownScope :=
        ⟨h.pos.ne', h.own 0 f rfl, Param.parent_openScope _ _ _, h.outer, htop⟩
      have hfault : (f.check t seen false).fault = none := FuncDef.fault_check hfs.1 hchild
      have hrest : (f.check t seen false).scopes.Ready g (next + 1) fs :=
        h.rest fun _ hne ↦ FuncDef.scope?_check_ne hchild hne
      obtain ⟨between, hbetween, hwatch⟩ := FuncDef.watch_eq hchild hinside hfits hfs.1 seen
      obtain ⟨identities, hfits', hlater⟩ :=
        @ih _ _ ⟨between, watch.locals⟩ hrest hbetween hfs.2 (f.name :: seen)
      rw [hany, hwatch, Watch.andThen_eq (FuncDef.checkAll · (f.name :: seen) fs) hfault hlater,
        Walk.andThen_of_fault hfault]
      exact ⟨identities, hfits', rfl⟩

end

/-- Watching symbols, however they are numbered, a program is walked as it is by watching names, and
the locals that were watched before are left. -/
theorem Script.watch_eq {source : String} {s : Script Tag} (h : Script.parse source = .ok s)
    {watch : Watch} (hfits : watch.identities.Fits (Node.script s).firstWalk.scopes) :
    ∃ identities : Identities, s.watch (Node.script s).firstWalk.scopes watch =
      ((Node.script s).secondWalk, ⟨identities, watch.locals⟩) := by
  obtain ⟨b, hmain⟩ := Script.exists_main h
  have hwritten := Script.written_of_parse h
  obtain ⟨hfault, -, houter, hown⟩ := Script.run_funcs hmain hwritten.1
  obtain ⟨between, hbetween, hfuncs⟩ := FuncDef.watchAll_eq (s.declare_laidOut.ready hwritten.1)
    s.parent_globalScope hfits hwritten.1 []
  have hinside : (FuncDef.checkAll (s.declare .initial).scopes [] s.funcs).scopes.Inside
      (1 + s.funcs.length) s.globalScope
      (Param.openScope mainName (some .void) ([] : List (Param Tag))) :=
    ⟨one_add_ne_globalId _, hown, rfl, houter, s.parent_globalScope⟩
  obtain ⟨identities, -, hbody⟩ := @Body.watch_eq _ _ _ _ _ _ b ⟨between, watch.locals⟩ hinside
    hbetween (by simp) (fun d hd ↦ (hwritten.2 b hmain d hd).1) []
  refine ⟨identities, ?_⟩
  change s.watch (s.declare .initial).scopes watch = (s.check (s.declare .initial).scopes, _)
  unfold Script.watch Script.check
  rw [hfuncs]
  refine Watch.andThen_eq _ hfault ?_
  simp only [hmain]
  exact Watch.within_eq (Script.childNamed?_main hmain houter) hbody

end ScriptAnalysis
