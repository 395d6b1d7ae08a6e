import SimpleLang.Proofs.Check.Frame
import SimpleLang.Proofs.Check.Typing

/-!
# Typings do not depend on order

Declarations of different names can be made in any order, with the same scope in the end
(`Frame.add_comm`).  Functions see all functions, whatever their order, and a statement that declares
nothing in its own scope leaves the context as it is (`StmtTyped.context_eq`), so such statements do
not depend on each other.  Hence what types a program can be given, and with what context it ends,
does not depend on the order of its functions, globals and main statements (`ProgramTyped.perm`).
-/

namespace SimpleLang

variable {F F' : Frame} {Γ Γ' : Context} {ret : Option GroundTy}

/-! ### Declarations -/

theorem Frame.add_eq_none_iff {x y : String} {τ : GroundTy} :
    F.add x τ y = none ↔ y ≠ x ∧ F y = none := by
  by_cases h : y = x <;> simp [Frame.add, h]

theorem Frame.add_comm {x y : String} (h : x ≠ y) (F : Frame) (τ τ' : GroundTy) :
    (F.add x τ).add y τ' = (F.add y τ').add x τ := by
  funext z
  by_cases hy : z = y
  · have hx : z ≠ x := fun hx => h (hx.symm.trans hy)
    simp only [Frame.add, hy, if_true, if_neg (hy ▸ hx)]
  · simp only [Frame.add, if_neg hy]

theorem DeclsTyped.perm {ds ds' : List Decl} (hperm : ds.Perm ds') : ∀ {Γ Γ' : Context}
    {τs : List GroundTy}, DeclsTyped Γ ds τs Γ' → ∃ τs', DeclsTyped Γ ds' τs' Γ' := by
  induction hperm with
  | nil => exact fun h => ⟨_, h⟩
  | cons d _ ih =>
    rintro Γ Γ' _ (_ | ⟨hd, hds⟩)
    obtain ⟨τs', hds'⟩ := ih hds
    exact ⟨_, .cons hd hds'⟩
  | swap d e ds =>
    rintro Γ Γ' _ (_ | ⟨⟨hnone, hallows⟩, _ | ⟨⟨hnone', hallows'⟩, hds⟩⟩)
    -- the second name is new after the first, so the two differ and can be declared either way
    obtain ⟨hne, hd⟩ := Frame.add_eq_none_iff.1 hnone'
    rw [Frame.add_comm hne.symm] at hds
    exact ⟨_, .cons (.declare hd hallows')
      (.cons (.declare (Frame.add_eq_none_iff.2 ⟨hne.symm, hnone⟩) hallows) hds)⟩
  | trans _ _ ih ih' =>
    intro Γ Γ' τs h
    obtain ⟨τs', h'⟩ := ih h
    exact ih' h'

theorem FuncsDeclared.perm {R : FuncDef → FuncTypes GroundTy → Prop} {fs fs' : List FuncDef}
    (hperm : fs.Perm fs') : ∀ {F F' : Frame} {ts : List (FuncTypes GroundTy)},
      FuncsDeclared F fs ts F' → List.Forall₂ R fs ts →
        ∃ ts', FuncsDeclared F fs' ts' F' ∧ List.Forall₂ R fs' ts' := by
  induction hperm with
  | nil => exact fun h hR => ⟨_, h, hR⟩
  | cons f _ ih =>
    rintro F F' _ (_ | ⟨hnone, hd⟩) (_ | ⟨hf, hfs⟩)
    obtain ⟨ts', hd', hfs'⟩ := ih hd hfs
    exact ⟨_, .cons hnone hd', .cons hf hfs'⟩
  | swap f g fs =>
    rintro F F' _ (_ | ⟨hnone, _ | ⟨hnone', hd⟩⟩) (_ | ⟨hg, _ | ⟨hf, hfs⟩⟩)
    obtain ⟨hne, hfnone⟩ := Frame.add_eq_none_iff.1 hnone'
    rw [Frame.add_comm hne.symm] at hd
    exact ⟨_, .cons hfnone (.cons (Frame.add_eq_none_iff.2 ⟨hne.symm, hnone⟩) hd),
      .cons hf (.cons hg hfs)⟩
  | trans _ _ ih ih' =>
    intro F F' ts h hR
    obtain ⟨ts', h', hR'⟩ := ih h hR
    exact ih' h' hR'

/-! ### Statements -/

/-- A statement that declares nothing in its own scope leaves the context as it is. -/
theorem StmtTyped.context_eq : ∀ {st : Stmt} {Γ Γ' : Context} {τs : List GroundTy},
    st.declared = [] → StmtTyped ret Γ st τs Γ' → Γ' = Γ
  | .decl _ d, _, _, _, hd, _ => by cases hd
  | .block _ _ _, _, _, _, _, .block _ _ => rfl
  | .assign _ _ _, _, _, _, _, .assign _ _ => rfl
  | .ifThen _ _ t, _, _, _, hd, .ifThen _ ht => by
    have hdt : t.declared = [] := hd
    exact ht.context_eq hdt
  | .ifElse _ _ _ _, _, _, _, hd, .ifElse _ ht he => by
    obtain ⟨hdt, hde⟩ := List.append_eq_nil_iff.1 hd
    rw [he.context_eq hde, ht.context_eq hdt]
  | .while _ _ b, _, _, _, hd, .while _ hb => by
    have hdb : b.declared = [] := hd
    exact hb.context_eq hdb
  | .return _ _, _, _, _, _, .return _ _ => rfl

/-- Such statements can be typed one by one. -/
theorem stmtsTyped_iff_forall {ss : List Stmt} (hss : ∀ st ∈ ss, st.declared = []) :
    (∃ τs, StmtsTyped ret Γ ss τs Γ') ↔
      Γ' = Γ ∧ ∀ st ∈ ss, ∃ τs, StmtTyped ret Γ st τs Γ := by
  induction ss with
  | nil =>
    constructor
    · rintro ⟨_, _ | _⟩
      exact ⟨rfl, by simp⟩
    · rintro ⟨rfl, -⟩
      exact ⟨[], .nil⟩
  | cons st ss ih =>
    obtain ⟨hst, hss⟩ := List.forall_mem_cons.1 hss
    constructor
    · rintro ⟨_, _ | ⟨h, hs⟩⟩
      obtain rfl := h.context_eq hst
      obtain ⟨rfl, hall⟩ := (ih hss).1 ⟨_, hs⟩
      exact ⟨rfl, List.forall_mem_cons.2 ⟨⟨_, h⟩, hall⟩⟩
    · rintro ⟨rfl, hall⟩
      obtain ⟨⟨τs, h⟩, hrest⟩ := List.forall_mem_cons.1 hall
      obtain ⟨τs', hs⟩ := (ih hss).2 ⟨rfl, hrest⟩
      exact ⟨τs ++ τs', .cons h hs⟩

/-! ### Programs -/

/-- The same functions, globals and main statements, each in any order. -/
structure Program.Reordered (p p' : Program) : Prop where
  /-- The same functions. -/
  functions : p.functions.Perm p'.functions
  /-- The same globals. -/
  globals : p.globals.Perm p'.globals
  /-- The same main statements. -/
  main : p.main.Perm p'.main

theorem Program.Reordered.symm {p p' : Program} (h : p.Reordered p') : p'.Reordered p :=
  ⟨h.functions.symm, h.globals.symm, h.main.symm⟩

/-- **What a program ends with does not depend on order.** -/
theorem ProgramTyped.perm {p p' : Program} {t : ProgramTypes GroundTy} (hp : p.Reordered p')
    (hmain : ∀ st ∈ p.main, st.declared = []) (h : ProgramTyped p t Γ) :
    ∃ t', ProgramTyped p' t' Γ := by
  obtain ⟨hdeclared, hfunctions, hglobals, hstmts⟩ := h
  obtain ⟨ts, hdeclared', hfunctions'⟩ := hdeclared.perm hp.functions hfunctions
  obtain ⟨τs, hglobals'⟩ := hglobals.perm hp.globals
  obtain ⟨rfl, hall⟩ := (stmtsTyped_iff_forall hmain).1 ⟨_, hstmts⟩
  have hmain' : ∀ st ∈ p'.main, st.declared = [] := fun st hst =>
    hmain st (hp.main.mem_iff.2 hst)
  obtain ⟨τs', hstmts'⟩ := (stmtsTyped_iff_forall hmain').2
    ⟨rfl, fun st hst => hall st (hp.main.mem_iff.2 hst)⟩
  exact ⟨⟨ts, τs, τs'⟩, hdeclared', hfunctions', hglobals', hstmts'⟩

end SimpleLang
