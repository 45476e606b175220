import ScriptAnalysis.Proofs.Beginnings
import ScriptAnalysis.Proofs.Metadata
import ScriptAnalysis.Proofs.Ordering
import ScriptAnalysis.Proofs.Rereading
import ScriptAnalysis.Proofs.TypedNodes

/-!
# The listing of types

Of two nodes of a tree one lies below the other, or the tokens of one stand before those of the
other. So nodes that begin at the same place and have tokens lie one below the other, and the inner
one has the smaller number. This makes the order in which types are listed the only one that goes by
places and numbers, and lists what lies inside first.
-/

namespace ScriptAnalysis

/-- A node has a greater number than everything below it. -/
theorem Node.lt_of_below {low high : Nat} {root node below : Node Tag}
    (h : Rising low high (ids root.postOrder)) (hnode : node ∈ root.all)
    (hbelow : below ∈ node.all) (hne : below ≠ node) : below.note.id < node.note.id := by
  obtain ⟨child, hchild, hbelow⟩ := (Node.mem_all_iff.1 hbelow).resolve_left hne
  have hlt : child.note.id < node.note.id := Node.lt_of_rising h hnode hchild
  by_cases heq : below = child
  · exact heq ▸ hlt
  · have := Node.count_lt_of_mem_children hchild
    have hchild' := Node.mem_all_of_mem_children hnode hchild
    exact Nat.lt_trans (Node.lt_of_below h hchild' hbelow heq) hlt
termination_by node.count

theorem Node.Ranged.within {ts : List Token} {range : Nat → TokenRange} {root x y : Node Tag}
    (h : root.Ranged ts range) (hy : y ∈ root.all) (hx : x ∈ y.all) :
    (range y.note.id).first ≤ (range x.note.id).first ∧
      (range x.note.id).stop ≤ (range y.note.id).stop := by
  rcases Node.mem_all_iff.1 hx with rfl | ⟨child, hchild, hx⟩
  · exact ⟨Nat.le_refl _, Nat.le_refl _⟩
  · have := Node.count_lt_of_mem_children hchild
    have hpart := (h y hy).2.1 _ (List.mem_map_of_mem hchild)
    have hbelow := h.within (Node.mem_all_of_mem_children hy hchild) hx
    exact ⟨Nat.le_trans hpart.1 hbelow.1, Nat.le_trans hbelow.2 hpart.2⟩
termination_by y.count

/-- Whether one of two ranges stands before the other. -/
def TokenRange.Apart (range range' : TokenRange) : Prop :=
  range.stop ≤ range'.first ∨ range'.stop ≤ range.first

/-- Of two nodes of a tree one lies below the other, or their ranges stand apart. -/
theorem Node.Ranged.nested_or_apart {ts : List Token} {range : Nat → TokenRange}
    {root x y : Node Tag} (h : root.Ranged ts range) (hx : x ∈ root.all) (hy : y ∈ root.all) :
    (x ∈ y.all ∨ y ∈ x.all) ∨ (range x.note.id).Apart (range y.note.id) := by
  rcases Node.mem_all_iff.1 hx with rfl | ⟨left, hleft, hx'⟩
  · exact .inl (.inr hy)
  rcases Node.mem_all_iff.1 hy with rfl | ⟨right, hright, hy'⟩
  · exact .inl (.inl hx)
  have hmem {child : Node Tag} (hchild : child ∈ root.children) : child ∈ root.all :=
    Node.mem_all_of_mem_children root.mem_all_self hchild
  by_cases heq : left = right
  · subst heq
    have := Node.count_lt_of_mem_children hleft
    have hbelow : left.Ranged ts range := fun node hnode ↦
      h node (Node.mem_all_trans (hmem hleft) hnode)
    exact hbelow.nested_or_apart hx' hy'
  · -- Different parts of the root stand apart, and with them what lies below them.
    have hparts := List.pairwise_map.1 (h root root.mem_all_self).2.2
    have : Std.Symm fun x y : Node Tag ↦ (range x.note.id).Apart (range y.note.id) :=
      ⟨fun _ _ ↦ Or.symm⟩
    have hrows : root.children.Pairwise fun x y ↦ (range x.note.id).Apart (range y.note.id) :=
      hparts.imp Or.inl
    have hapart : (range left.note.id).Apart (range right.note.id) :=
      hrows.forall hleft hright heq
    have hwithin := h.within (hmem hleft) hx'
    have hwithin' := h.within (hmem hright) hy'
    right
    unfold TokenRange.Apart at hapart ⊢
    omega
termination_by root.count

theorem Node.ReadFrom.text_ne_empty {source : String} {root : Node Tag} {e : Expr Tag}
    (h : root.ReadFrom source) (he : .expr e ∈ root.all) : e.note.text ≠ "" := by
  obtain ⟨ts, hts, hexpression⟩ := h.exists_expression he
  obtain ⟨t, more, rfl⟩ := List.exists_cons_of_ne_nil hexpression.ne_nil
  have htext := hexpression.toList_text
  rw [Expr.note_map] at htext
  intro hempty
  change e.note.extent.text = "" at hempty
  rw [hempty, Lexer.glued, List.flatMap_cons] at htext
  obtain ⟨text, hmunches⟩ := (hts t List.mem_cons_self).munches
  exact hmunches.ne_nil (List.append_eq_nil_iff.1 htext.symm).1

/-- Two nodes that hold expressions and begin at the same place lie one below the other. -/
theorem Node.ReadFrom.nested_of_start_eq {source : String} {root x y : Node Tag} {e e' : Expr Tag}
    (h : root.ReadFrom source) (hx : x ∈ root.all) (hy : y ∈ root.all) (he : .expr e ∈ x.all)
    (he' : .expr e' ∈ y.all) (hstart : x.note.span.start = y.note.span.start) :
    x ∈ y.all ∨ y ∈ x.all := by
  obtain ⟨range, -, hranged⟩ := h.readAt.exists_ranged h.nodup_ids
  have hfilled {node : Node Tag} {e : Expr Tag} (hnode : node ∈ root.all)
      (he : .expr e ∈ node.all) : (range node.note.id).first < (range node.note.id).stop := by
    have hexpr := Node.mem_all_trans hnode he
    have hwithin := hranged.within hnode he
    have hrange := (hranged _ hexpr).1
    have hlt : (range e.note.id).first < (range e.note.id).stop := by
      refine Nat.lt_of_le_of_ne hrange.le fun hempty ↦ ?_
      obtain ⟨_, -, htext, -⟩ := hrange.empty hempty
      exact h.text_ne_empty hexpr htext
    exact Nat.lt_of_le_of_lt hwithin.1 (Nat.lt_of_lt_of_le hlt hwithin.2)
  have hfirst : (range x.note.id).first = (range y.note.id).first := by
    obtain ⟨first, _, hfirst, -, hspan⟩ := (hranged x hx).1.filled (hfilled hx he)
    obtain ⟨first', _, hfirst', -, hspan'⟩ := (hranged y hy).1.filled (hfilled hy he')
    have hplace : first.startPlace = first'.startPlace := by
      calc
        first.startPlace = x.note.span.start := (congrArg Span.start hspan).symm
        _ = y.note.span.start := hstart
        _ = first'.startPlace := congrArg Span.start hspan'
    obtain ⟨hi, rfl⟩ := List.getElem?_eq_some_iff.1 hfirst
    obtain ⟨hj, rfl⟩ := List.getElem?_eq_some_iff.1 hfirst'
    rw [← List.getElem_map Token.startPlace, ← List.getElem_map Token.startPlace] at hplace
    · exact (Lexer.nodup_startPlaces source).getElem_inj_iff.1 hplace
    · rwa [List.length_map]
    · rwa [List.length_map]
  have := hfilled hx he
  have := hfilled hy he'
  refine (hranged.nested_or_apart hx hy).resolve_right ?_
  unfold TokenRange.Apart
  omega

namespace TypeTable

variable {types : TypeTable}

theorem perm_entries : types.entries.Perm (types.byId.toList.map Prod.snd) :=
  Ordered.perm_sort _ _

theorem mem_entries_iff {typed : Typed} :
    typed ∈ types.entries ↔ ∃ id : Nat, types.byId[id]? = some typed := by
  rw [perm_entries.mem_iff, List.mem_map]
  constructor
  · rintro ⟨⟨id, _⟩, hmem, rfl⟩
    exact ⟨id, Std.ExtTreeMap.mem_toList_iff_getElem?_eq_some.1 hmem⟩
  · rintro ⟨id, hget⟩
    exact ⟨(id, typed), Std.ExtTreeMap.mem_toList_iff_getElem?_eq_some.2 hget, rfl⟩

/-- Whether each entry is kept under the number of its node. -/
def Keyed (types : TypeTable) : Prop :=
  ∀ (id : Nat) (typed : Typed), types.byId[id]? = some typed → typed.node.id = id

theorem Keyed.pairwise_toList (h : types.Keyed) :
    (types.byId.toList.map Prod.snd).Pairwise (·.node.id < ·.node.id) := by
  rw [List.pairwise_map]
  refine Std.ExtTreeMap.ordered_keys_toList.imp_of_mem ?_
  rintro ⟨id, typed⟩ ⟨id', typed'⟩ hmem hmem' hlt
  rw [h id typed (Std.ExtTreeMap.mem_toList_iff_getElem?_eq_some.1 hmem),
    h id' typed' (Std.ExtTreeMap.mem_toList_iff_getElem?_eq_some.1 hmem')]
  exact Nat.compare_eq_lt.1 hlt

end TypeTable

/-- Whether an entry begins before another one, or at the same place and has a smaller number. -/
def Typed.Precedes (a b : Typed) : Prop :=
  a.node.span.start.line < b.node.span.start.line ∨
    a.node.span.start.line = b.node.span.start.line ∧
      (a.node.span.start.col < b.node.span.start.col ∨
        a.node.span.start.col = b.node.span.start.col ∧ a.node.id < b.node.id)

theorem Typed.Precedes.trans {a b c : Typed} (h : a.Precedes b) (h' : b.Precedes c) :
    a.Precedes c := by
  unfold Typed.Precedes at h h' ⊢
  omega

theorem Typed.Precedes.asymm {a b : Typed} (h : a.Precedes b) : ¬ b.Precedes a := by
  unfold Typed.Precedes at h ⊢
  omega

theorem TypeTable.Keyed.pairwise_entries {types : TypeTable} (h : types.Keyed) :
    types.entries.Pairwise Typed.Precedes := by
  apply Ordered.pairwise_sort_of_pairwise h.pairwise_toList
  · exact fun _ _ _ ↦ Typed.Precedes.trans
  · intro a b hlt hstarts
    simp only [Typed.startsBy, Bool.or_eq_true, Bool.and_eq_true, decide_eq_true_eq] at hstarts
    unfold Typed.Precedes
    omega
  · intro a b hstarts
    simp only [Typed.startsBy, Bool.or_eq_false_iff, Bool.and_eq_false_iff,
      decide_eq_false_iff_not] at hstarts
    unfold Typed.Precedes
    omega

/-- There is one order of the entries only that goes by places and numbers. -/
theorem TypeTable.Keyed.eq_entries {types : TypeTable} (h : types.Keyed) {order : List Typed}
    (hperm : order.Perm types.entries) (horder : order.Pairwise fun a b ↦ ¬ b.Precedes a) :
    order = types.entries := by
  have hne : order.Pairwise (·.node.id ≠ ·.node.id) :=
    ((hperm.trans perm_entries).pairwise_iff Ne.symm).2 (h.pairwise_toList.imp Nat.ne_of_lt)
  have hprecedes : order.Pairwise Typed.Precedes := by
    refine (horder.and hne).imp ?_
    intro a b hab
    unfold Typed.Precedes at hab ⊢
    omega
  exact hperm.eq_of_pairwise (fun _ _ _ _ hlt hlt' ↦ absurd hlt' hlt.asymm) hprecedes
    h.pairwise_entries

theorem Node.ReadFrom.keyed_types {source : String} {root : Node Tag} (h : root.ReadFrom source)
    (options : Options) : (root.analyze options).types.Keyed :=
  fun _ _ hget ↦ ((h.types_getElem?_iff options).1 hget).1

theorem Script.Typable.exists_expr {s : Script Tag} {types : TypeTable} {node : Node Tag}
    (h : s.Typable types node) : ∃ e, .expr e ∈ node.all := by
  cases h with
  | @expr _ _ _ e _ _ => exact ⟨e, Node.mem_all_self _⟩
  | @decl _ _ _ d _ hd =>
    obtain ⟨_, _, _, e, he, -⟩ := hd
    refine ⟨e, Node.mem_all_of_mem_children (Node.mem_all_self _) ?_⟩
    exact List.mem_map_of_mem (Option.mem_toList.2 he)

section

variable {source : String} {s : Script Tag} (h : Script.parse source = .ok s) (options : Options)
include h

theorem Script.mem_entries_iff {typed : Typed} :
    typed ∈ (s.analyze options).types.entries ↔
      .typed typed.node typed.type ∈ (Node.script s).secondWalk.events := by
  have hget {id : Nat} : (s.analyze options).types.byId[id]? = some typed ↔ _ :=
    (Node.ReadFrom.script h).types_getElem?_iff options
  simp only [TypeTable.mem_entries_iff, hget, exists_eq_left']

theorem Script.exists_typable_of_mem_entries {typed : Typed}
    (htyped : typed ∈ (s.analyze options).types.entries) :
    ∃ node, s.Typable (s.analyze options).types node ∧ node.note = typed.node :=
  Script.exists_typable h options ((Script.mem_entries_iff h options).1 htyped)

/-- The entries are the nodes of the program that have types. -/
theorem Script.mem_entries_iff_exists {typed : Typed} :
    typed ∈ (s.analyze options).types.entries ↔
      (∃ node ∈ (Node.script s).all, node.note = typed.node) ∧
        (s.analyze options).types.get? typed.node.id = some typed.type := by
  have hread := Node.ReadFrom.script h
  constructor
  · intro htyped
    obtain ⟨node, hnode, hnote⟩ := Script.exists_typable_of_mem_entries h options htyped
    exact ⟨⟨node, hnode.mem_all, hnote⟩, (hread.types_get?_iff options).2
      ⟨typed.node, rfl, (Script.mem_entries_iff h options).1 htyped⟩⟩
  · rintro ⟨⟨node, hnode, hnote⟩, htype⟩
    obtain ⟨tag, hid, htyped⟩ := (hread.types_get?_iff options).1 htype
    obtain ⟨node', hnode', rfl⟩ := Script.exists_typable h options htyped
    obtain rfl := eq_of_id_eq hread.nodup_ids hnode hnode'.mem_all (hnote ▸ hid.symm)
    rw [Script.mem_entries_iff h options, ← hnote]
    exact htyped

/-- Of two entries that begin at the same place, the one with the smaller number is a node below the
other. -/
theorem Script.nested_of_mem_entries {a b : Typed} (ha : a ∈ (s.analyze options).types.entries)
    (hb : b ∈ (s.analyze options).types.entries) (hstart : a.node.span.start = b.node.span.start)
    (hlt : a.node.id < b.node.id) :
    ∃ outer ∈ (Node.script s).all, ∃ inner ∈ outer.all, inner ≠ outer ∧ inner.note = a.node ∧
      outer.note = b.node := by
  obtain ⟨inner, hinner, hinnerNote⟩ := Script.exists_typable_of_mem_entries h options ha
  obtain ⟨outer, houter, houterNote⟩ := Script.exists_typable_of_mem_entries h options hb
  obtain ⟨_, he⟩ := hinner.exists_expr
  obtain ⟨_, he'⟩ := houter.exists_expr
  rw [← hinnerNote, ← houterNote] at hstart hlt
  have hne : inner ≠ outer := by
    rintro rfl
    exact Nat.lt_irrefl _ hlt
  have hread := Node.ReadFrom.script h
  refine ⟨outer, houter.mem_all, inner, ?_, hne, hinnerNote, houterNote⟩
  refine (hread.nested_of_start_eq hinner.mem_all houter.mem_all he he' hstart).resolve_right ?_
  intro hbelow
  exact Nat.lt_asymm hlt (Node.lt_of_below hread.numbered.rising hinner.mem_all hbelow hne.symm)

end

/-- The listing of types after an analysis has one entry for each node of the program with a type,
and none for anything else. It goes by the lines and columns where the nodes begin, and of two that
begin at the same place the first one lies below the second. However the entries are taken from the
table, there is one order of them only in which none stands before one that begins earlier, or that
begins at the same place and has a smaller number; that is the order of the listing. -/
theorem types_listed_in_order {source : String} {s : Script Tag} (h : Script.parse source = .ok s)
    (options : Options) :
    ((s.analyze options).types.entries.map (·.node.id)).Nodup ∧
    (∀ typed, typed ∈ (s.analyze options).types.entries ↔
      (∃ node ∈ (Node.script s).all, node.note = typed.node) ∧
        (s.analyze options).types.get? typed.node.id = some typed.type) ∧
    ((s.analyze options).types.entries.Pairwise fun a b ↦
      a.node.span.start.line < b.node.span.start.line ∨
      a.node.span.start.line = b.node.span.start.line ∧
        a.node.span.start.col < b.node.span.start.col ∨
      a.node.span.start = b.node.span.start ∧
        ∃ outer ∈ (Node.script s).all, ∃ inner ∈ outer.all, inner ≠ outer ∧
          inner.note = a.node ∧ outer.note = b.node) ∧
    ∀ order : List Typed, order.Perm ((s.analyze options).types.byId.toList.map Prod.snd) →
      (order.Pairwise fun a b ↦ ¬ b.Precedes a) → order = (s.analyze options).types.entries := by
  have hkeyed : (s.analyze options).types.Keyed := (Node.ReadFrom.script h).keyed_types options
  refine ⟨?_, fun typed ↦ Script.mem_entries_iff_exists h options, ?_, ?_⟩
  · rw [(TypeTable.perm_entries.map _).nodup_iff, List.Nodup, List.pairwise_map]
    exact hkeyed.pairwise_toList.imp Nat.ne_of_lt
  · refine hkeyed.pairwise_entries.imp_of_mem ?_
    intro a b ha hb hprecedes
    rcases hprecedes with hline | ⟨hline, hcol | ⟨hcol, hid⟩⟩
    · exact .inl hline
    · exact .inr (.inl ⟨hline, hcol⟩)
    · have hstart : a.node.span.start = b.node.span.start := by
        rw [Place.mk.injEq]
        exact ⟨hline, hcol⟩
      exact .inr (.inr ⟨hstart, Script.nested_of_mem_entries h options ha hb hstart hid⟩)
  · intro order hperm horder
    exact hkeyed.eq_entries (hperm.trans TypeTable.perm_entries.symm) horder

/-- The sum begins where its left operand does, which is listed before it, and has the greater
number than its right operand, which is listed behind it. -/
theorem types_listed_in_order_sum :
    ∃ s, Script.parse "print 1+2" = .ok s ∧ (s.analyze {}).types.entries =
      [⟨⟨2, ⟨⟨⟨1, 7⟩, ⟨1, 8⟩⟩, "1"⟩⟩, .int⟩, ⟨⟨4, ⟨⟨⟨1, 7⟩, ⟨1, 10⟩⟩, "1+2"⟩⟩, .int⟩,
        ⟨⟨3, ⟨⟨⟨1, 9⟩, ⟨1, 10⟩⟩, "2"⟩⟩, .int⟩] := by
  obtain ⟨s, hs, hevents⟩ : ∃ s, Script.parse "print 1+2" = .ok s ∧
      (Node.script s).secondWalk.events =
        [.entered .inferring "$main" 1, .typed ⟨2, ⟨⟨⟨1, 7⟩, ⟨1, 8⟩⟩, "1"⟩⟩ .int,
          .typed ⟨3, ⟨⟨⟨1, 9⟩, ⟨1, 10⟩⟩, "2"⟩⟩ .int,
          .typed ⟨4, ⟨⟨⟨1, 7⟩, ⟨1, 10⟩⟩, "1+2"⟩⟩ .int, .left .inferring "$main" 1] := by
    refine ⟨?_, ?parse, ?_⟩
    case parse =>
      cbv
      rfl
    unfold Node.secondWalk
    cbv
  obtain ⟨hnodup, -, -, honly⟩ := types_listed_in_order hs {}
  refine ⟨s, hs, (honly _ (.trans ?_ TypeTable.perm_entries) ?_).symm⟩
  · refine (List.perm_ext_iff_of_nodup (.of_map (·.node.id) (by decide)) hnodup.of_map).2 ?_
    rintro ⟨node, type⟩
    rw [Script.mem_entries_iff hs {}, hevents]
    simp only [List.mem_cons, Typed.mk.injEq, Event.typed.injEq, List.not_mem_nil, reduceCtorEq,
      or_false, false_or]
    tauto
  · simp [Typed.Precedes, Tag.span]

end ScriptAnalysis
