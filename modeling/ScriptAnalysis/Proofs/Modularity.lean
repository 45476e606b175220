import ScriptAnalysis.Proofs.Beginnings
import ScriptAnalysis.Proofs.Beside
import ScriptAnalysis.Proofs.Warnings

/-!
# Checking is modular

A definition is checked against the headers of the others and never against their bodies. So a
change in the body of one definition touches the answers about that body only: everywhere else the
types, the findings and the warnings stay, and so does every other scope.
-/

namespace ScriptAnalysis

open ScopeTable (globalId mainName)

/-- What a program says around the body of one of its definitions. -/
structure Surroundings (α : Type) where
  before : List (FuncDef α)
  name : String
  params : List (Param α)
  returns : String
  after : List (FuncDef α)
  main : Body α

/-- What surrounds the body of the definition at a position. -/
def Script.surroundings? {α : Type} (s : Script α) (i : Nat) : Option (Surroundings α) := do
  let f ← s.funcs[i]?
  let main ← s.main
  return ⟨s.funcs.take i, f.name, f.params, f.returns, s.funcs.drop (i + 1), main⟩

namespace Surroundings

variable {α β γ : Type}

def map (g : α → β) (x : Surroundings α) : Surroundings β :=
  ⟨x.before.map (FuncDef.map g), x.name, x.params.map (Param.map g), x.returns,
    x.after.map (FuncDef.map g), x.main.map g⟩

/-- The nodes of the other definitions and of the main part. -/
def outer (x : Surroundings α) : List (Node α) :=
  (x.before ++ x.after).flatMap (FuncDef.walk fun _ ↦ false) ++ (Node.main x.main).all

theorem outer_map (g : α → β) (x : Surroundings α) :
    (x.map g).outer = x.outer.map (Node.map g) := by
  unfold outer
  rw [List.map_append, ← flatMap_walk_map g (FuncDef.walk_map g), ← Node.all_map, List.map_append]
  rfl

theorem exists_pairs {f : α → γ} {g : β → γ} {x : Surroundings α} {x' : Surroundings β}
    (h : x.map f = x'.map g) : ∃ p : Surroundings (α × β),
      p.map Prod.fst = x ∧ p.map Prod.snd = x' ∧ Linked (fun a b ↦ f a = g b) p.outer := by
  obtain ⟨before, name, params, returns, after, main⟩ := x
  obtain ⟨before', name', params', returns', after', main'⟩ := x'
  obtain ⟨hbefore, rfl, hparams, rfl, hafter, hmain⟩ := Surroundings.mk.inj h
  obtain ⟨ps, rfl, rfl, hps⟩ := exists_pairs_of_map_eq FuncDef.exists_pairs hbefore
  obtain ⟨qs, rfl, rfl, -⟩ := exists_pairs_of_map_eq Param.exists_pairs hparams
  obtain ⟨rs, rfl, rfl, hrs⟩ := exists_pairs_of_map_eq FuncDef.exists_pairs hafter
  obtain ⟨b, rfl, rfl, hnote, hb⟩ := Body.exists_pairs main main' hmain
  refine ⟨⟨ps, name, qs, returns, rs, b⟩, rfl, rfl, linked_append.2 ⟨?_, ?_⟩⟩
  · exact linked_flatMap.2 (List.forall_mem_append.2 ⟨hps, hrs⟩)
  · exact linked_visit.2 ⟨hnote, hb⟩

end Surroundings

/-- A program split into the definition at a position and what surrounds its body. -/
structure Script.SplitAt {α : Type} (s : Script α) (i : Nat) (f : FuncDef α) (x : Surroundings α) :
    Prop where
  own : s.funcs[i]? = some f
  funcs : s.funcs = x.before ++ f :: x.after
  later : s.funcs.drop (i + 1) = x.after
  main : s.main = some x.main
  name : f.name = x.name
  params : f.params = x.params
  returns : f.returns = x.returns

theorem Script.splitAt_of_surroundings? {α : Type} {s : Script α} {i : Nat} {f : FuncDef α}
    {x : Surroundings α} (hf : s.funcs[i]? = some f) (h : s.surroundings? i = some x) :
    s.SplitAt i f x := by
  obtain ⟨hlt, hget⟩ := List.getElem?_eq_some_iff.1 hf
  simp only [Script.surroundings?, hf, Option.bind_eq_bind, Option.bind_some,
    Option.bind_eq_some_iff] at h
  obtain ⟨main, hmain, hx⟩ := h
  obtain rfl := Option.some.inj hx
  refine ⟨hf, ?_, rfl, hmain, rfl, rfl, rfl⟩
  rw [← hget, ← List.drop_eq_getElem_cons, List.take_append_drop]

section

variable {s : Script Tag} {t : ScopeTable} {g : Scope} {i : Nat} {f : FuncDef Tag}

theorem FuncDef.name_ownScope {α : Type} (f : FuncDef α) : f.ownScope.name = f.name :=
  (Param.frame_foldl_declareIn _ f.params).1

/-- No other name leads to the scope of a definition. -/
theorem Script.LaidOut.name_eq (h : s.LaidOut t) (hflat : t.Flat g) (hf : s.funcs[i]? = some f)
    {name : String} (hchild : g.children[name]? = some (1 + i)) : name = f.name := by
  obtain ⟨own, hown, hname, -⟩ := hflat.inner name (1 + i) hchild
  rw [h.own i f hf] at hown
  obtain rfl := Option.some.inj hown
  rw [← hname, f.name_ownScope]

/-- The name of a definition leads to its scope exactly if no later one has the name. -/
theorem Script.LaidOut.child_iff (h : s.LaidOut t) (hflat : t.Flat g) (hs : s.Written)
    (hf : s.funcs[i]? = some f) : g.children[f.name]? = some (1 + i) ↔
      f.name ∉ (s.funcs.drop (i + 1)).map FuncDef.name := by
  have hg : g = s.globalScope := Option.some.inj (hflat.outer.symm.trans h.outer)
  have hmem : f ∈ s.funcs := List.mem_of_getElem? hf
  have hchild {j : Nat} {d : FuncDef Tag} (hlast : LastAt FuncDef.name s.funcs j d)
      (hname : d.name = f.name) : g.children[f.name]? = some (1 + j) := by
    rw [hg, globalScope_of_notMain (hs.1 f hmem).name, ← hname]
    exact (Scope.bindFunctions_of_lastAt _ 1 hlast).1
  constructor
  · intro hown hlater
    obtain ⟨j, d, hlast, hname⟩ := exists_lastAt (List.mem_map_of_mem hmem)
    have hj : i = j := Nat.add_left_cancel (Option.some.inj (hown.symm.trans (hchild hlast hname)))
    subst hj
    obtain ⟨later, hmem, heq⟩ := List.mem_map.1 hlater
    exact hlast.last later hmem (heq.trans hname.symm)
  · intro hlast
    refine hchild ⟨hf, fun later hmem heq ↦ hlast ?_⟩ rfl
    exact List.mem_map.2 ⟨later, hmem, heq⟩

end

/-! ## Two programs that differ in one body -/

section

variable {s s' : Script Tag} {i : Nat} {f f' : FuncDef Tag} {p : Surroundings (Tag × Tag)}

theorem Script.declare_eq_of_splitAt (h : s.SplitAt i f (p.map Prod.fst))
    (h' : s'.SplitAt i f' (p.map Prod.snd)) (t : ScopeTable) : s.declare t = s'.declare t := by
  have hheader : f.header = f'.header := by
    simp only [FuncDef.header, h.name, h.params, h.returns, h'.name, h'.params, h'.returns,
      Surroundings.map, List.map_map]
    rfl
  have hheaders (side : Tag × Tag → Tag) (fs : List (FuncDef (Tag × Tag))) :
      (fs.map (FuncDef.map side)).map FuncDef.header = fs.map FuncDef.header := by
    rw [List.map_map]
    exact List.map_congr_left fun d _ ↦ d.header_map side
  apply Script.declare_eq
  · simp only [h.funcs, h'.funcs, Surroundings.map, List.map_append, List.map_cons, hheaders,
      hheader]
  · rw [h.main, h'.main]
    rfl

/-- The second walks over the two programs go beside each other. -/
theorem Script.check_beside {R : Tag → Tag → Prop} {S : Event → Event → Prop}
    (hs : s.Written) (hs' : s'.Written) (h : s.SplitAt i f (p.map Prod.fst))
    (h' : s'.SplitAt i f' (p.map Prod.snd)) (hp : Linked (SameWords R) p.outer)
    (hS : ∀ event event', event.Alike R event' → S event event')
    (hreports : ∀ seen, List.Forall₂ S (f.reports seen) (f'.reports seen))
    (hskipped : S (.skipped f.name f.note.line) (.skipped f'.name f'.note.line))
    {t : ScopeTable} {g : Scope} (hlaid : s.LaidOut t) (hflat : t.Flat g) :
    (s.check t).Beside S (Event.InBody f) (Event.InBody f')
      (fun name ↦ g.children[name]? ≠ some (1 + i)) g (s'.check t) := by
  have hnames : f.name = f'.name := h.name.trans h'.name.symm
  have hmem : f ∈ s.funcs := List.mem_of_getElem? h.own
  have hmem' : f' ∈ s'.funcs := List.mem_of_getElem? h'.own
  have hlast : g.children[f.name]? = some (1 + i) ↔
      p.after.any (·.name = f.name) = false := by
    rw [hlaid.child_iff hflat hs h.own, h.later, ← FuncDef.any_name_map Prod.fst,
      List.any_eq_false]
    simp [Surroundings.map]
  have hcounts : ∀ name, name ≠ f.name → g.children[name]? ≠ some (1 + i) :=
    fun name hne hchild ↦ hne (hlaid.name_eq hflat h.own hchild)
  have hg : g = s.globalScope := Option.some.inj (hflat.outer.symm.trans hlaid.outer)
  obtain ⟨own, -, hown⟩ := Script.exists_child hs.1 f hmem
  rw [← hg] at hown
  obtain ⟨hfs, hm⟩ := linked_append.1 hp
  rw [linked_flatMap, List.forall_mem_append] at hfs
  have hafter : ∀ q ∈ p.after, g.children[q.name]? ≠ some (1 + i) := by
    intro q hq
    by_cases hq' : q.name = f.name
    · intro hchild
      rw [hq', hlast, List.any_eq_false] at hchild
      exact hchild q hq (decide_eq_true hq')
    · exact hcounts q.name hq'
  unfold Script.check
  rw [h.funcs, h'.funcs, h.main, h'.main]
  refine Walk.Beside.andThen (FuncDef.checkAll_beside ?_ hS ?_ p.before hfs.1 ?_
    ⟨hflat, hflat, rfl, fun _ _ ↦ rfl⟩) fun hscopes ↦ ?_
  · simp [hnames, Surroundings.map, FuncDef.map]
  · intro t t' seen htwins
    exact FuncDef.checkAll_cons_beside htwins hnames (hs.1 f hmem) (hs'.1 f' hmem') hown
      (hreports seen) hskipped hS hfs.2 (fun hnone hcounts ↦ hcounts (hlast.2 hnone)) hafter
  · intro q _ hq
    exact hcounts q.name fun heq ↦ hq (heq ▸ List.mem_cons_self)
  · exact Walk.Twins.beside (p.main.checkMain_twins hscopes (linked_visit.1 hm).2
      (hcounts mainName (hs.1 f hmem).name.symm)) hS

/-- Where the walks leave twins, the tables differ in the scope of the definition only. -/
theorem Script.scope?_check_eq {t : ScopeTable} {g : Scope} (hflat : t.Flat g)
    (h : ScopeTable.Twins (fun name ↦ g.children[name]? ≠ some (1 + i)) g g (s.check t).scopes
      (s'.check t).scopes) {id : ScopeId} (hid : id ≠ 1 + i) :
    (s.check t).scopes.scope? id = (s'.check t).scopes.scope? id := by
  by_cases hnamed : ∃ name : String, g.children[name]? = some id
  · obtain ⟨name, hchild⟩ := hnamed
    have hunder := h.under name fun hown ↦ hid (Option.some.inj (hchild.symm.trans hown))
    rw [h.flat.under_eq, h.flat'.under_eq, hchild] at hunder
    exact hunder
  · have hnone : ∀ name : String, g.children[name]? ≠ some id := not_exists.1 hnamed
    rw [s.scope?_check hflat hnone, s'.scope?_check hflat hnone]

theorem Script.LaidOut.name_scope?_check {t : ScopeTable} {g : Scope} (hlaid : s.LaidOut t)
    (hflat : t.Flat g) (hafter : (s.check t).scopes.Flat g) (hf : s.funcs[i]? = some f) :
    ((s.check t).scopes.scope? (1 + i)).map Scope.name = some f.name := by
  by_cases hchild : g.children[f.name]? = some (1 + i)
  · obtain ⟨own, hown, hname, -⟩ := hafter.inner f.name (1 + i) hchild
    rw [hown, Option.map_some, hname]
  · have hnone : ∀ name : String, g.children[name]? ≠ some (1 + i) := by
      intro name hname
      exact hchild (hlaid.name_eq hflat hf hname ▸ hname)
    rw [s.scope?_check hflat hnone, hlaid.own i f hf, Option.map_some, f.name_ownScope]

end

/-- The nodes of a tree that do not lie in a part of it. -/
def Node.outside (root part : Node Tag) : List (Node Tag) :=
  root.all.filter fun node ↦ node.note.id ∉ ids part.all

theorem Node.outside_eq {root part : Node Tag} {xs ys : List (Node Tag)}
    (hids : (ids root.all).Nodup) (hall : root.all = xs ++ (part.all ++ ys)) :
    root.outside part = xs ++ ys := by
  have hkeep {nodes : List (Node Tag)} (hnodes : ∀ node ∈ nodes, node.note.id ∉ ids part.all) :
      nodes.filter (fun node ↦ node.note.id ∉ ids part.all) = nodes :=
    List.filter_eq_self.2 fun node hnode ↦ decide_eq_true (hnodes node hnode)
  have hdrop : part.all.filter (fun node ↦ node.note.id ∉ ids part.all) = [] := by
    rw [List.filter_eq_nil_iff]
    intro node hnode
    have hmem : node.note.id ∈ ids part.all := List.mem_map_of_mem hnode
    simp [hmem]
  rw [hall, ids_append, ids_append] at hids
  obtain ⟨-, hothers, hxs⟩ := List.nodup_append.1 hids
  obtain ⟨-, -, hys⟩ := List.nodup_append.1 hothers
  rw [Node.outside, hall, List.filter_append, List.filter_append, hdrop, List.nil_append]
  rw [hkeep, hkeep]
  · intro node hnode hmem
    exact hys _ hmem _ (List.mem_map_of_mem hnode) rfl
  · intro node hnode hmem
    exact hxs _ (List.mem_map_of_mem hnode) _ (List.mem_append_left _ hmem) rfl

/-- Whether two notes stand at the same position in two rows of nodes. -/
def Counterparts (nodes nodes' : List (Node Tag)) (a b : Tag) : Prop :=
  (a, b) ∈ (nodes.map Node.note).zip (nodes'.map Node.note)

namespace Surroundings

/-- The nodes around a body: that of the program, those of the other definitions and of the main
part, and those of the header, in their order. -/
def nodes {α : Type} (root own : Node α) (x : Surroundings α) : List (Node α) :=
  root :: (x.before.flatMap (FuncDef.walk fun _ ↦ false) ++
    own :: (x.params.map .param ++
      (x.after.flatMap (FuncDef.walk fun _ ↦ false) ++ (Node.main x.main).all)))

/-- The nodes around two bodies, side by side. -/
def rows (root own : Node Tag × Node Tag) (p : Surroundings (Tag × Tag)) :
    List (Node Tag × Node Tag) :=
  let sides (node : Node (Tag × Tag)) := (node.map Prod.fst, node.map Prod.snd)
  root :: ((p.before.flatMap (FuncDef.walk fun _ ↦ false)).map sides ++
    own :: ((p.params.map .param).map sides ++
      ((p.after.flatMap (FuncDef.walk fun _ ↦ false)).map sides ++
        (Node.main p.main).all.map sides)))

theorem nodes_map {α β : Type} (g : α → β) (root own : Node β) (x : Surroundings α) :
    (x.map g).nodes root own =
      root :: ((x.before.flatMap (FuncDef.walk fun _ ↦ false)).map (Node.map g) ++
        own :: ((x.params.map .param).map (Node.map g) ++
          ((x.after.flatMap (FuncDef.walk fun _ ↦ false)).map (Node.map g) ++
            (Node.main x.main).all.map (Node.map g)))) := by
  rw [← flatMap_walk_map g (FuncDef.walk_map g), ← flatMap_walk_map g (FuncDef.walk_map g),
    ← Node.all_map]
  simp only [nodes, map, List.map_map]
  rfl

theorem map_fst_rows (root own : Node Tag × Node Tag) (p : Surroundings (Tag × Tag)) :
    (p.rows root own).map Prod.fst = (p.map Prod.fst).nodes root.1 own.1 := by
  simp only [nodes_map, rows, List.map_cons, List.map_append, List.map_map]
  rfl

theorem map_snd_rows (root own : Node Tag × Node Tag) (p : Surroundings (Tag × Tag)) :
    (p.rows root own).map Prod.snd = (p.map Prod.snd).nodes root.2 own.2 := by
  simp only [nodes_map, rows, List.map_cons, List.map_append, List.map_map]
  rfl

end Surroundings

/-- The nodes of a program outside the body of one of its definitions. -/
theorem Script.outside_body {s : Script Tag} {i : Nat} {f : FuncDef Tag} {x : Surroundings Tag}
    (hids : (ids (Node.script s).all).Nodup) (h : s.SplitAt i f x) :
    (Node.script s).outside (.body f.body) = x.nodes (.script s) (.func f) := by
  have hall : (Node.script s).all =
      (.script s :: (x.before.flatMap (FuncDef.walk fun _ ↦ false) ++
        .func f :: x.params.map .param)) ++ ((Node.body f.body).all ++
          (x.after.flatMap (FuncDef.walk fun _ ↦ false) ++ (Node.main x.main).all)) := by
    have hwalk : f.walk (fun _ ↦ false) =
        .func f :: (x.params.map .param ++ (Node.body f.body).all) := by
      rw [← h.params, List.map_eq_flatMap]
      rfl
    calc
      _ = .script s :: (s.funcs.flatMap (FuncDef.walk fun _ ↦ false) ++
            s.main.toList.flatMap fun main ↦ (Node.main main).all) := rfl
      _ = _ := by simp [h.funcs, h.main, hwalk]
  rw [Node.outside_eq hids hall]
  simp [Surroundings.nodes]

theorem Node.nodup_outside {root : Node Tag} (hids : (ids root.all).Nodup) (part : Node Tag) :
    (ids (root.outside part)).Nodup := hids.sublist (List.filter_sublist.map _)

theorem Counterparts.notMem {root root' part part' : Node Tag} {a b : Tag}
    (h : Counterparts (root.outside part) (root'.outside part') a b) :
    a.id ∉ ids part.all ∧ b.id ∉ ids part'.all := by
  obtain ⟨hleft, hright⟩ := List.of_mem_zip h
  obtain ⟨node, hnode, rfl⟩ := List.mem_map.1 hleft
  obtain ⟨node', hnode', rfl⟩ := List.mem_map.1 hright
  exact ⟨of_decide_eq_true (List.mem_filter.1 hnode).2,
    of_decide_eq_true (List.mem_filter.1 hnode').2⟩

section

variable {rows : List (Node Tag × Node Tag)} {a b c d : Tag}

theorem counterparts_iff : Counterparts (rows.map Prod.fst) (rows.map Prod.snd) a b ↔
    ∃ row ∈ rows, row.1.note = a ∧ row.2.note = b := by
  simp only [Counterparts, List.map_map, List.zip_map', List.mem_map, Prod.mk.injEq,
    Function.comp_apply]

theorem Counterparts.id_eq_iff (hids : (ids (rows.map Prod.fst)).Nodup)
    (hids' : (ids (rows.map Prod.snd)).Nodup)
    (hab : Counterparts (rows.map Prod.fst) (rows.map Prod.snd) a b)
    (hcd : Counterparts (rows.map Prod.fst) (rows.map Prod.snd) c d) :
    a.id = c.id ↔ b.id = d.id := by
  obtain ⟨row, hrow, rfl, rfl⟩ := counterparts_iff.1 hab
  obtain ⟨other, hother, rfl, rfl⟩ := counterparts_iff.1 hcd
  rw [ids, List.map_map] at hids hids'
  constructor
  · intro heq
    rw [List.inj_on_of_nodup_map hids hrow hother heq]
  · intro heq
    rw [List.inj_on_of_nodup_map hids' hrow hother heq]

end

/-! ## Events around a body -/

/-- Whether two events say the same of nodes related by `R`, and warn at nodes related by `W`. -/
def Event.AlikeAround (R W : Tag → Tag → Prop) (event event' : Event) : Prop :=
  event.Alike R event' ∧ Option.Rel (Warning.Alike W) event.warning? event'.warning?

namespace Surroundings

variable {p : Surroundings (Tag × Tag)} {root own : Node Tag × Node Tag}

/-- The notes at the same place in the other definitions or the main parts of two programs. -/
def Outer (p : Surroundings (Tag × Tag)) (a b : Tag) : Prop :=
  ∃ node ∈ p.outer, node.note = (a, b)

theorem mem_rows {row : Node Tag × Node Tag} : row ∈ p.rows root own ↔
    row = root ∨ row = own ∨ ∃ node ∈ p.params.map .param ++ p.outer,
      row = (node.map Prod.fst, node.map Prod.snd) := by
  simp only [rows, outer, List.mem_cons, List.mem_append, List.mem_map, List.flatMap_append]
  grind

theorem linked_of_rows {R : Tag → Tag → Prop}
    (h : ∀ row ∈ p.rows root own, R row.1.note row.2.note) :
    Linked R (p.params.map .param ++ p.outer) := by
  intro node hnode
  have hrow := h _ (mem_rows.2 (.inr (.inr ⟨node, hnode, rfl⟩)))
  rwa [Node.note_map, Node.note_map] at hrow

theorem Outer.related {R : Tag → Tag → Prop} {a b : Tag} (hab : p.Outer a b)
    (h : ∀ row ∈ p.rows root own, R row.1.note row.2.note) : R a b := by
  obtain ⟨node, hnode, hnote⟩ := hab
  have hnotes := linked_of_rows h node (List.mem_append_right _ hnode)
  rwa [hnote] at hnotes

end Surroundings

section

variable {source source' : String} {s s' : Script Tag} {i : Nat} {f f' : FuncDef Tag}
  {p : Surroundings (Tag × Tag)}

theorem Script.exists_splitAt (hs : Script.parse source = .ok s) (hf : s.funcs[i]? = some f) :
    ∃ x, s.surroundings? i = some x ∧ s.SplitAt i f x := by
  obtain ⟨main, hmain⟩ := Script.exists_main hs
  have hx : s.surroundings? i = some
      ⟨s.funcs.take i, f.name, f.params, f.returns, s.funcs.drop (i + 1), main⟩ := by
    simp [Script.surroundings?, hf, hmain]
  exact ⟨_, hx, Script.splitAt_of_surroundings? hf hx⟩

/-- No node of the definition has the span of a node of the other definitions or the main part. -/
theorem Script.span_notMem (hs : Script.parse source = .ok s) {side : Tag × Tag → Tag}
    (h : s.SplitAt i f (p.map side)) {node : Node (Tag × Tag)} (hnode : node ∈ p.outer) :
    (side node.note).span ∉ (Node.func f).all.map fun node ↦ node.note.span := by
  have hmem : node.map side ∈ (p.map side).outer := by
    rw [Surroundings.outer_map]
    exact List.mem_map_of_mem hnode
  rw [← Node.note_map side]
  intro hspan
  obtain ⟨own, hown, heq⟩ := List.mem_map.1 hspan
  exact Script.span_ne hs h.funcs h.main hmem hown heq.symm

/-- The second walks over two programs that differ in one body, told by their nodes around it. -/
theorem Script.secondWalk_beside (hs : Script.parse source = .ok s)
    (hs' : Script.parse source' = .ok s') (h : s.SplitAt i f (p.map Prod.fst))
    (h' : s'.SplitAt i f' (p.map Prod.snd)) (hp : Linked (fun a b ↦ a.text = b.text) p.outer)
    {R : Tag → Tag → Prop}
    (hR : ∀ row ∈ p.rows (.script s, .script s') (.func f, .func f'), R row.1.note row.2.note) :
    ∃ g, (s.declare .initial).scopes.Flat g ∧
      (Node.script s).secondWalk.Beside (Event.AlikeAround R p.Outer) (Event.InBody f)
        (Event.InBody f') (fun name ↦ g.children[name]? ≠ some (1 + i)) g
        (Node.script s').secondWalk := by
  have hnote : R f.note f'.note :=
    hR (.func f, .func f') (Surroundings.mem_rows.2 (.inr (.inl rfl)))
  have hnames : f.name = f'.name := h.name.trans h'.name.symm
  have hheader : ∀ q ∈ p.params, R q.note.1 q.note.2 := fun q hq ↦
    Surroundings.linked_of_rows hR (.param q) (List.mem_append_left _ (List.mem_map_of_mem hq))
  have hreports (seen : List String) :
      List.Forall₂ (Event.AlikeAround R p.Outer) (f.reports seen) (f'.reports seen) := by
    have halike :=
      f.alike_reports f' hnote hnames p.params hheader h.params.symm h'.params.symm seen
    apply ((List.forall₂_and_left _ _).2 ⟨f.warning?_reports seen, halike⟩).imp
    rintro event event' ⟨hnone, halike⟩
    refine ⟨halike, ?_⟩
    have hwarnings := halike.warning?
    rw [hnone] at hwarnings ⊢
    generalize event'.warning? = found at hwarnings ⊢
    cases hwarnings
    exact .none
  have hwords : Linked (SameWords p.Outer) p.outer :=
    fun node hnode ↦ ⟨⟨node, hnode, rfl⟩, hp node hnode⟩
  have hskipped : Event.AlikeAround R p.Outer (.skipped f.name f.note.line)
      (.skipped f'.name f'.note.line) := by
    rw [hnames]
    exact ⟨.skipped hnote f'.name, .none⟩
  obtain ⟨g, hflat, -⟩ := s.declare_flat ScopeTable.flat_initial
  refine ⟨g, hflat, ?_⟩
  change (s.check (s.declare .initial).scopes).Beside _ _ _ _ g
    (s'.check (s'.declare .initial).scopes)
  rw [← Script.declare_eq_of_splitAt h h']
  refine Script.check_beside (Script.written_of_parse hs) (Script.written_of_parse hs') h h' hwords
    ?_ hreports hskipped s.declare_laidOut hflat
  exact fun event event' halike ↦ ⟨halike.mono fun a b hab ↦ hab.related hR, halike.warning?⟩

/-- The nodes outside the two bodies stand side by side. -/
theorem Script.exists_rows (hs : Script.parse source = .ok s) (hs' : Script.parse source' = .ok s')
    (h : s.SplitAt i f (p.map Prod.fst)) (h' : s'.SplitAt i f' (p.map Prod.snd)) :
    ∃ rows, rows = p.rows (.script s, .script s') (.func f, .func f') ∧
      (Node.script s).outside (.body f.body) = rows.map Prod.fst ∧
      (Node.script s').outside (.body f'.body) = rows.map Prod.snd ∧
      (ids (rows.map Prod.fst)).Nodup ∧ (ids (rows.map Prod.snd)).Nodup := by
  have hids := (Node.ReadFrom.script hs).nodup_ids
  have hids' := (Node.ReadFrom.script hs').nodup_ids
  have houtside := Script.outside_body hids h
  have houtside' := Script.outside_body hids' h'
  have hnodup := Node.nodup_outside hids (.body f.body)
  have hnodup' := Node.nodup_outside hids' (.body f'.body)
  refine ⟨_, rfl, ?_⟩
  rw [p.map_fst_rows, p.map_snd_rows]
  exact ⟨houtside, houtside', houtside ▸ hnodup, houtside' ▸ hnodup'⟩

/-- What walks beside each other say of the types of nodes outside the two bodies. -/
theorem Script.types_of_secondWalk_beside {R W : Tag → Tag → Prop} {P : String → Prop} {g : Scope}
    (h : (Node.script s).secondWalk.Beside (Event.AlikeAround R W) (Event.InBody f)
      (Event.InBody f') P g (Node.script s').secondWalk)
    (hout : ∀ a b, R a b → a.id ∉ ids (Node.body f.body).all ∧ b.id ∉ ids (Node.body f'.body).all)
    (hids : ∀ a b c d, R a b → R c d → (a.id = c.id ↔ b.id = d.id)) (options : Options) :
    ∀ a b, R a b →
      (s.analyze options).types.get? a.id = (s'.analyze options).types.get? b.id := by
  unfold Script.analyze Report.types
  rw [Node.analysis_analyze, Node.analysis_analyze]
  refine types_of_beside h.events (fun _ _ ↦ And.left) ?_ ?_ hids fun _ _ _ ↦ rfl
  · intro node type hbody a b hab heq
    exact (hout a b hab).1 (heq ▸ hbody)
  · intro node type hbody a b hab heq
    exact (hout a b hab).2 (heq ▸ hbody)

theorem Script.scopes_of_secondWalk_beside {S : Event → Event → Prop} {A A' : Event → Prop}
    {g : Scope} (h : s.SplitAt i f (p.map Prod.fst)) (h' : s'.SplitAt i f' (p.map Prod.snd))
    (hflat : (s.declare .initial).scopes.Flat g)
    (hwalks : (Node.script s).secondWalk.Beside S A A'
      (fun name ↦ g.children[name]? ≠ some (1 + i)) g (Node.script s').secondWalk)
    {id : ScopeId} (hid : id ≠ 1 + i) :
    (Node.script s).secondWalk.scopes.scope? id =
      (Node.script s').secondWalk.scopes.scope? id := by
  have hscopes := hwalks.scopes
  have hwalk' : (Node.script s').secondWalk = s'.check (s.declare .initial).scopes := by
    rw [Script.declare_eq_of_splitAt h h']
    rfl
  rw [hwalk'] at hscopes ⊢
  exact Script.scope?_check_eq hflat hscopes hid

theorem Surroundings.Outer.span_notMem (hs : Script.parse source = .ok s)
    (hs' : Script.parse source' = .ok s') (h : s.SplitAt i f (p.map Prod.fst))
    (h' : s'.SplitAt i f' (p.map Prod.snd)) {a b : Tag} (hab : p.Outer a b) :
    a.span ∉ ((Node.func f).all.map fun node ↦ node.note.span) ∧
      b.span ∉ (Node.func f').all.map fun node ↦ node.note.span := by
  obtain ⟨node, hnode, hnote⟩ := hab
  have hspan := Script.span_notMem hs h hnode
  have hspan' := Script.span_notMem hs' h' hnode
  rw [hnote] at hspan hspan'
  exact ⟨hspan, hspan'⟩

end

def Node.expr? {α : Type} : Node α → Option (Expr α)
  | .expr e => some e
  | _ => none

/-- The expressions around two bodies go together. -/
theorem Surroundings.expr?_of_mem_rows {p : Surroundings (Tag × Tag)} {s s' : Script Tag}
    {f f' : FuncDef Tag} (hp : (p.map Prod.fst).map Tag.text = (p.map Prod.snd).map Tag.text)
    {row : Node Tag × Node Tag} (hrow : row ∈ p.rows (.script s, .script s') (.func f, .func f'))
    {Q : Tag → Tag → Prop} (hQ : Q row.1.note row.2.note) :
    Option.Rel (fun e e' ↦ e.map Tag.text = e'.map Tag.text ∧ Q e.note e'.note)
      row.1.expr? row.2.expr? := by
  rcases mem_rows.1 hrow with rfl | rfl | ⟨node, hnode, rfl⟩
  · exact .none
  · exact .none
  · cases node with
    | expr q =>
      refine .some ⟨?_, hQ⟩
      have houter := congrArg Surroundings.outer hp
      simp only [outer_map, List.map_map, List.map_inj_left] at houter
      have hmem : Node.expr q ∈ p.outer := by simpa using hnode
      exact Node.expr.inj (houter _ hmem)
    | _ => exact .none

/-- Checking is modular. If two programs say the same but for the body of the definition at one
position, then expressions at the same place outside that body get the same type, in the same order
the same findings are made of nodes at the same place outside it and the same warnings are attached
to nodes at the same place outside the definition, and every scope but that of the definition is
the same. -/
theorem checking_is_modular {source source' : String} {s s' : Script Tag}
    (hs : Script.parse source = .ok s) (hs' : Script.parse source' = .ok s') {i : Nat}
    {f f' : FuncDef Tag} (hf : s.funcs[i]? = some f) (hf' : s'.funcs[i]? = some f')
    (hsame : (s.surroundings? i).map (Surroundings.map Tag.text) =
      (s'.surroundings? i).map (Surroundings.map Tag.text)) (options : Options) :
    let outside := (Node.script s).outside (.body f.body)
    let outside' := (Node.script s').outside (.body f'.body)
    List.Forall₂ (fun node node' ↦ Option.Rel (fun e e' ↦ e.map Tag.text = e'.map Tag.text ∧
        (s.analyze options).types.get? e.note.id = (s'.analyze options).types.get? e'.note.id)
      node.expr? node'.expr?) outside outside' ∧
    List.Forall₂ (Finding.Alike (Counterparts outside outside'))
      (((Node.script s).findings options).filter fun finding ↦
        finding.node.id ∉ ids (Node.body f.body).all)
      (((Node.script s').findings options).filter fun finding ↦
        finding.node.id ∉ ids (Node.body f'.body).all) ∧
    List.Forall₂ (Warning.Alike (Counterparts outside outside'))
      ((s.analyze options).warnings.filter fun warning ↦
        warning.span ∉ (Node.func f).all.map fun node ↦ node.note.span)
      ((s'.analyze options).warnings.filter fun warning ↦
        warning.span ∉ (Node.func f').all.map fun node ↦ node.note.span) ∧
    ((s.analyze options).scopes.scope? (1 + i)).map Scope.name = some f.name ∧
    ∀ id, id ≠ 1 + i →
      (s.analyze options).scopes.scope? id = (s'.analyze options).scopes.scope? id := by
  intro outside outside'
  obtain ⟨x, hx, hsplit⟩ := Script.exists_splitAt hs hf
  obtain ⟨x', hx', hsplit'⟩ := Script.exists_splitAt hs' hf'
  rw [hx, hx'] at hsame
  have htexts : x.map Tag.text = x'.map Tag.text := Option.some.inj hsame
  obtain ⟨p, rfl, rfl, hp⟩ := Surroundings.exists_pairs htexts
  obtain ⟨rows, hrows, houtside, houtside', hids, hids'⟩ := Script.exists_rows hs hs' hsplit hsplit'
  change outside = _ at houtside
  change outside' = _ at houtside'
  have hrelated : ∀ row ∈ rows, Counterparts outside outside' row.1.note row.2.note := by
    intro row hrow
    rw [houtside, houtside', counterparts_iff]
    exact ⟨row, hrow, rfl, rfl⟩
  have hnumbers : ∀ a b c d, Counterparts outside outside' a b → Counterparts outside outside' c d →
      (a.id = c.id ↔ b.id = d.id) := by
    intro a b c d
    rw [houtside, houtside']
    exact Counterparts.id_eq_iff hids hids'
  obtain ⟨g, hflat, hwalks⟩ :=
    Script.secondWalk_beside hs hs' hsplit hsplit' hp (hrows ▸ hrelated)
  refine ⟨?_, ?_, ?_, ?_, ?_⟩
  · have htypes := Script.types_of_secondWalk_beside hwalks (fun _ _ ↦ Counterparts.notMem)
      hnumbers options
    rw [houtside, houtside', List.forall₂_map_left_iff, List.forall₂_map_right_iff,
      List.forall₂_same]
    intro row hrow
    exact Surroundings.expr?_of_mem_rows (Q := fun a b ↦ (s.analyze options).types.get? a.id =
      (s'.analyze options).types.get? b.id) htexts (hrows ▸ hrow) (htypes _ _ (hrelated row hrow))
  · exact findings_of_beside hwalks.events (fun _ _ ↦ And.left) (fun _ _ ↦ Counterparts.notMem)
      (fun _ _ ↦ id) fun _ _ ↦ id
  · apply (cautions_of_beside hwalks.events (fun _ _ h ↦ h.1.admits_eq) (fun _ _ ↦ And.right)
      (fun _ _ ↦ Surroundings.Outer.span_notMem hs hs' hsplit hsplit') (fun _ _ ↦ id)
      fun _ _ ↦ id).imp
    rintro w w' ⟨⟨a, b, hab, hspans⟩, hsays⟩
    exact ⟨⟨a, b, hab.related (hrows ▸ hrelated), hspans⟩, hsays⟩
  · exact s.declare_laidOut.name_scope?_check hflat hwalks.scopes.flat hf
  · exact fun id ↦ Script.scopes_of_secondWalk_beside hsplit hsplit' hflat hwalks

/-- A body that may end without a value, and one that returns a value of another type. -/
theorem checking_is_modular_rewritten : ∃ s s' f f',
    Script.parse "func f():Int{x=1}print f()+y" = .ok s ∧
    Script.parse "func f():Int{return true}print f()+y" = .ok s' ∧
    s.funcs[0]? = some f ∧ s'.funcs[0]? = some f' ∧
    (s.surroundings? 0).map (Surroundings.map Tag.text) =
      (s'.surroundings? 0).map (Surroundings.map Tag.text) ∧
    (∀ id, id ≠ 1 → (s.analyze {}).scopes.scope? id = (s'.analyze {}).scopes.scope? id) ∧
    List.Forall₂ (Finding.Alike (Counterparts ((Node.script s).outside (.body f.body))
        ((Node.script s').outside (.body f'.body))))
      (((Node.script s).findings {}).filter fun finding ↦
        finding.node.id ∉ ids (Node.body f.body).all)
      (((Node.script s').findings {}).filter fun finding ↦
        finding.node.id ∉ ids (Node.body f'.body).all) := by
  obtain ⟨s, s', f, f', hs, hs', hf, hf', hsame⟩ : ∃ s s' f f',
      Script.parse "func f():Int{x=1}print f()+y" = .ok s ∧
      Script.parse "func f():Int{return true}print f()+y" = .ok s' ∧
      s.funcs[0]? = some f ∧ s'.funcs[0]? = some f' ∧
      (s.surroundings? 0).map (Surroundings.map Tag.text) =
        (s'.surroundings? 0).map (Surroundings.map Tag.text) := by
    refine ⟨?_, ?_, ?_, ?_, ?parse, ?parse', ?first, ?first', ?same⟩
    case parse =>
      cbv
      rfl
    case parse' =>
      cbv
      rfl
    case first => rfl
    case first' => rfl
    case same => cbv
  obtain ⟨-, hfindings, -, -, hscopes⟩ := checking_is_modular hs hs' hf hf' hsame {}
  exact ⟨s, s', f, f', hs, hs', hf, hf', hsame, hscopes, hfindings⟩

end ScriptAnalysis
