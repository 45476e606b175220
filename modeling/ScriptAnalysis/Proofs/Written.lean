import ScriptAnalysis.Proofs.Recognition
import ScriptAnalysis.Proofs.Layout

/-!
# What a source can write

In a program that was read from a source, every declaration has a name and writes the name of a
type, and no function has the name of the scope of the main part.
-/

namespace ScriptAnalysis

open ScopeTable (mainName)

section

variable {α : Type}

def VarDecl.Written (d : VarDecl α) : Prop := d.name ≠ "" ∧ (writtenType? d.type).isSome = true

def Param.Written (p : Param α) : Prop := p.name ≠ "" ∧ (writtenType? p.type).isSome = true

def Body.Written (b : Body α) : Prop := ∀ d ∈ b.vars.decls, d.Written

structure FuncDef.Written (f : FuncDef α) : Prop where
  name : f.name ≠ mainName
  params : ∀ p ∈ f.params, p.Written
  returns : (writtenReturn? f.returns).isSome = true
  body : f.body.Written

def Script.Written (s : Script α) : Prop :=
  (∀ f ∈ s.funcs, f.Written) ∧ ∀ main ∈ s.main, main.Written

end

/-- Whether a token that is a name or a type is written like one. -/
def Token.Genuine (t : Token) : Prop :=
  (t.kind = .ident → t.lexeme ≠ "" ∧ t.lexeme ≠ mainName) ∧
    (t.kind = .type → (writtenType? t.lexeme).isSome = true)

namespace Lexer

theorem ofSymbol_notWord (c : Char) : Kind.ofSymbol c ≠ .ident ∧ Kind.ofSymbol c ≠ .type := by
  unfold Kind.ofSymbol
  split <;> decide

theorem ofSymbolEquals?_notWord (c : Char) :
    Kind.ofSymbolEquals? c ≠ some .ident ∧ Kind.ofSymbolEquals? c ≠ some .type := by
  unfold Kind.ofSymbolEquals?
  split <;> decide

theorem isSome_writtenType?_of_ofWord {word : String} (h : Kind.ofWord word = .type) :
    (writtenType? word).isSome = true := by
  unfold Kind.ofWord at h
  split at h <;> cases h <;> rfl

/-- What does not begin like a word is neither a name nor a type. -/
theorem piece_notWord {c : Char} (hword : ¬ isWordStart c = true) (rest : List Char) :
    (piece c rest).1 ≠ some .ident ∧ (piece c rest).1 ≠ some .type := by
  unfold piece
  split
  · simp
  split
  · simp
  split
  · simp only
    split <;> simp
  split
  · simp
  split
  · next kind hkind =>
    split at hkind
    · rw [← hkind]
      exact ofSymbolEquals?_notWord c
    · cases hkind
  · simpa using ofSymbol_notWord c

/-- Names and types are words. -/
theorem eq_ofWord_of_piece {c : Char} {rest : List Char} {kind : Kind}
    (h : (piece c rest).1 = some kind) (hkind : kind = .ident ∨ kind = .type) :
    isWordStart c = true ∧
      kind = Kind.ofWord (String.ofList (c :: rest.take (piece c rest).2)) := by
  by_cases hword : isWordStart c
  · refine ⟨hword, ?_⟩
    unfold piece at h ⊢
    by_cases hblank : Text.isBlank c
    · simp [hblank] at h
    · simp only [hblank, hword, if_true, Bool.false_eq_true, if_false] at h ⊢
      rw [take_takeWhile_length]
      exact (Option.some.inj h).symm
  · exfalso
    obtain ⟨hident, htype⟩ := piece_notWord hword rest
    rcases hkind with rfl | rfl
    · exact hident h
    · exact htype h

theorem genuine_of_mem_scan {here : Nat × Nat} {source : List Char} :
    ∀ t ∈ scan here source, t.Genuine := by
  intro t ht
  obtain ⟨c, rest, hpiece, hlexeme⟩ := mem_scan ht
  constructor
  · intro hident
    obtain ⟨hword, -⟩ := eq_ofWord_of_piece hpiece (.inl hident)
    have hhead : t.lexeme.toList.head? = some c := by simp [hlexeme]
    constructor
    · intro hempty
      simp [hempty] at hhead
    · intro hmain
      rw [hmain] at hhead
      obtain rfl : '$' = c := by simpa [mainName] using hhead
      exact absurd hword (by decide)
  · intro htype
    obtain ⟨-, hofWord⟩ := eq_ofWord_of_piece hpiece (.inr htype)
    rw [← hlexeme, htype] at hofWord
    exact isSome_writtenType?_of_ofWord hofWord.symm

end Lexer

namespace Grammar

variable {ts : List Token}

theorem Declaration.written {d : VarDecl Extent} (h : Declaration ts d)
    (hts : ∀ t ∈ ts, t.Genuine) : d.Written := by
  cases h with
  | plain _ hn _ ht | initial _ hn _ ht =>
    exact ⟨((hts _ (by simp)).1 hn).1, (hts _ (by simp)).2 ht⟩

theorem Declarations.written {ds : List (VarDecl Extent)} (h : Declarations ts ds)
    (hts : ∀ t ∈ ts, t.Genuine) : ∀ d ∈ ds, d.Written := by
  induction h with
  | nil => simp
  | cons h _ ih =>
    rw [List.forall_mem_append] at hts
    exact List.forall_mem_cons.2 ⟨h.written hts.1, ih hts.2⟩

theorem Parts.written {next : Token} {vars : VarBlock Extent} {block : Block Extent}
    (h : Parts ts next vars block) (hts : ∀ t ∈ ts, t.Genuine) : ∀ d ∈ vars.decls, d.Written := by
  obtain ⟨hd, -⟩ := h
  exact hd.written (List.forall_mem_append.1 hts).1

theorem FunctionBody.written {b : Body Extent} (h : FunctionBody ts b)
    (hts : ∀ t ∈ ts, t.Genuine) : b.Written := by
  obtain ⟨-, h, -⟩ := h
  exact h.written fun t ht ↦ hts t (by simp [ht])

theorem Parameter.written {p : Param Extent} (h : Parameter ts p) (hts : ∀ t ∈ ts, t.Genuine) :
    p.Written := by
  obtain ⟨hn, -, ht⟩ := h
  exact ⟨((hts _ (by simp)).1 hn).1, (hts _ (by simp)).2 ht⟩

theorem ParameterList.written {ps : List (Param Extent)} (h : ParameterList ts ps)
    (hts : ∀ t ∈ ts, t.Genuine) : ∀ p ∈ ps, p.Written := by
  induction h with
  | last h _ =>
    rw [List.forall_mem_append] at hts
    simpa using h.written hts.1
  | more h _ _ ih =>
    rw [List.forall_mem_append, List.forall_mem_cons] at hts
    exact List.forall_mem_cons.2 ⟨h.written hts.1, ih hts.2.2⟩

theorem Parameters.written {ps : List (Param Extent)} (h : Parameters ts ps)
    (hts : ∀ t ∈ ts, t.Genuine) : ∀ p ∈ ps, p.Written := by
  cases h with
  | none _ => simp
  | some h => exact h.written hts

theorem ReturnType.written {returns : String} (h : ReturnType ts returns)
    (hts : ∀ t ∈ ts, t.Genuine) : (writtenReturn? returns).isSome = true := by
  cases h with
  | none => rfl
  | some _ ht =>
    have htype := (hts _ (by simp)).2 ht
    rw [writtenReturn?]
    split
    · rfl
    · exact htype

theorem Function.written {f : FuncDef Extent} (h : Function ts f) (hts : ∀ t ∈ ts, t.Genuine) :
    f.Written := by
  obtain ⟨-, hn, -, hp, hr, hb⟩ := h
  refine ⟨((hts _ (by simp)).1 hn).2, hp.written fun t ht ↦ hts t (by simp [ht]),
    hr.written fun t ht ↦ hts t (by simp [ht]), hb.written fun t ht ↦ hts t (by simp [ht])⟩

theorem Functions.written {fs : List (FuncDef Extent)} (h : Functions ts fs)
    (hts : ∀ t ∈ ts, t.Genuine) : ∀ f ∈ fs, f.Written := by
  induction h with
  | nil => simp
  | cons h _ ih =>
    rw [List.forall_mem_append] at hts
    exact List.forall_mem_cons.2 ⟨h.written hts.1, ih hts.2⟩

theorem Program.written {s : Script Extent} (h : Program ts s) (hts : ∀ t ∈ ts, t.Genuine) :
    s.Written := by
  obtain ⟨hf, hm, -⟩ := h
  refine ⟨hf.written fun t ht ↦ hts t (by simp [ht]), ?_⟩
  rintro _ ⟨⟩
  exact hm.written fun t ht ↦ hts t (by simp [ht])

end Grammar

theorem VarDecl.written_numberAll {ds : List (VarDecl Extent)} (h : ∀ d ∈ ds, d.Written)
    (last : Nat) : ∀ d ∈ (VarDecl.numberAll last ds).1, d.Written := by
  induction ds generalizing last with
  | nil => simp [VarDecl.numberAll]
  | cons d ds ih =>
    rw [List.forall_mem_cons] at h
    exact List.forall_mem_cons.2 ⟨h.1, ih h.2 _⟩

theorem Param.written_numberAll {ps : List (Param Extent)} (h : ∀ p ∈ ps, p.Written)
    (last : Nat) : ∀ p ∈ (Param.numberAll last ps).1, p.Written := by
  induction ps generalizing last with
  | nil => simp [Param.numberAll]
  | cons p ps ih =>
    rw [List.forall_mem_cons] at h
    exact List.forall_mem_cons.2 ⟨h.1, ih h.2 _⟩

theorem Body.Written.number {b : Body Extent} (h : b.Written) (last : Nat) :
    (b.number last).1.Written :=
  VarDecl.written_numberAll h last

theorem FuncDef.Written.number {f : FuncDef Extent} (h : f.Written) (last : Nat) :
    (f.number last).1.Written :=
  ⟨h.name, Param.written_numberAll h.params last, h.returns, h.body.number _⟩

theorem FuncDef.written_numberAll {fs : List (FuncDef Extent)} (h : ∀ f ∈ fs, f.Written)
    (last : Nat) : ∀ f ∈ (FuncDef.numberAll last fs).1, f.Written := by
  induction fs generalizing last with
  | nil => simp [FuncDef.numberAll]
  | cons f fs ih =>
    rw [List.forall_mem_cons] at h
    exact List.forall_mem_cons.2 ⟨h.1.number last, ih h.2 _⟩

theorem Script.Written.number {s : Script Extent} (h : s.Written) : s.number.Written := by
  rw [Script.number]
  cases hmain : s.main with
  | none => exact ⟨FuncDef.written_numberAll h.1 0, by simp⟩
  | some main =>
    refine ⟨FuncDef.written_numberAll h.1 0, ?_⟩
    rintro _ ⟨⟩
    exact (h.2 main hmain).number _

theorem Script.written_of_program {source : String} {tree : Script Extent}
    (h : Grammar.Program (Lexer.allTokens source) tree) : tree.Written := by
  apply h.written
  intro t ht
  rcases List.mem_append.1 ht with ht | ht
  · exact Lexer.genuine_of_mem_scan t ht
  · have hmark : t.kind = .eof := by
      rw [List.mem_singleton.1 ht]
      rfl
    exact ⟨by simp [hmark], by simp [hmark]⟩

theorem Script.written_of_parse {source : String} {s : Script Tag}
    (h : Script.parse source = .ok s) : s.Written := by
  obtain ⟨tree, hprogram, rfl⟩ := Script.parse_eq_ok_iff.1 h
  exact (Script.written_of_program hprogram).number

end ScriptAnalysis
