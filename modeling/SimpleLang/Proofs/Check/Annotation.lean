import SimpleLang.Proofs.Check.Order

/-!
# Written types

A written type rules out typings and does nothing else: a program can be given some types exactly if
it can be given them without any written type, and each declaration has the type that is written, if
one is (`ProgramTyped.iff_bare`).  So written types and inference agree
(`Program.check_annotations`).  Leaving out written types leaves a program that is accepted, with
types of which the old ones are instances.  Writing types that were inferred changes nothing, since
each typing already has them.
-/

namespace SimpleLang

variable {F F' : Frame} {Γ Γ' : Context} {ret : Option GroundTy} {τ : GroundTy}
  {τs : List GroundTy}

/-! ### Programs without written types -/

/-- A declaration without its type. -/
def Decl.bare (d : Decl) : Decl := { d with type := none }

namespace Stmt

mutual

/-- A statement without written types. -/
def bare : Stmt → Stmt
  | .decl span d => .decl span d.bare
  | .block span ds ss => .block span (ds.map Decl.bare) (bareAll ss)
  | .assign span x e => .assign span x e
  | .ifThen span c t => .ifThen span c t.bare
  | .ifElse span c t e => .ifElse span c t.bare e.bare
  | .while span c b => .while span c b.bare
  | .return span e => .return span e

/-- Statements without written types. -/
def bareAll : List Stmt → List Stmt
  | [] => []
  | s :: ss => s.bare :: bareAll ss

end

mutual

/-- The declarations in a statement, in order. -/
def declarations : Stmt → List Decl
  | .decl _ d => [d]
  | .block _ ds ss => ds ++ declarationsAll ss
  | .ifThen _ _ t => t.declarations
  | .ifElse _ _ t e => t.declarations ++ e.declarations
  | .while _ _ b => b.declarations
  | .assign _ _ _ | .return _ _ => []

/-- The declarations in some statements, in order. -/
def declarationsAll : List Stmt → List Decl
  | [] => []
  | s :: ss => s.declarations ++ declarationsAll ss

end

mutual

theorem declarations_bare : ∀ s : Stmt, s.bare.declarations = s.declarations.map Decl.bare
  | .decl _ _ | .assign _ _ _ | .return _ _ => rfl
  | .block _ ds ss => by
    rw [bare, declarations, declarations, List.map_append, declarationsAll_bareAll ss]
  | .ifThen _ _ t => declarations_bare t
  | .ifElse _ _ t e => by
    rw [bare, declarations, declarations, List.map_append, declarations_bare t,
      declarations_bare e]
  | .while _ _ b => declarations_bare b

theorem declarationsAll_bareAll : ∀ ss : List Stmt,
    declarationsAll (bareAll ss) = (declarationsAll ss).map Decl.bare
  | [] => rfl
  | s :: ss => by
    rw [bareAll, declarationsAll, declarationsAll, List.map_append, declarations_bare s,
      declarationsAll_bareAll ss]

end

end Stmt

namespace FuncDef

/-- A function without written types. -/
def bare (f : FuncDef) : FuncDef :=
  { f with params := f.params.map Decl.bare, body := f.body.bare }

/-- The declarations of a function, its parameters first. -/
def declarations (f : FuncDef) : List Decl := f.params ++ f.body.declarations

theorem declarations_bare (f : FuncDef) : f.bare.declarations = f.declarations.map Decl.bare := by
  rw [bare, declarations, declarations, List.map_append, Stmt.declarations_bare]

end FuncDef

namespace Program

/-- A program without written types. -/
def bare (p : Program) : Program :=
  ⟨p.functions.map FuncDef.bare, p.globals.map Decl.bare, Stmt.bareAll p.main⟩

/-- The declarations of a program: those of its functions, the globals and those in main
statements. -/
def declarations (p : Program) : List Decl :=
  p.functions.flatMap FuncDef.declarations ++ (p.globals ++ Stmt.declarationsAll p.main)

end Program

namespace FuncTypes

variable {α β : Type}

/-- What belongs to the declarations of a function. -/
def declared (t : FuncTypes α) : List α := t.params ++ t.locals

theorem declared_map (f : α → β) (t : FuncTypes α) : (t.map f).declared = t.declared.map f := by
  rw [declared, declared, List.map_append]
  rfl

end FuncTypes

namespace ProgramTypes

variable {α β : Type}

/-- What belongs to the declarations of a program. -/
def declared (t : ProgramTypes α) : List α :=
  t.functions.flatMap FuncTypes.declared ++ (t.globals ++ t.main)

theorem declared_map (f : α → β) (t : ProgramTypes α) :
    (t.map f).declared = t.declared.map f := by
  simp only [declared, map, List.map_append, List.flatMap_map, List.map_flatMap,
    FuncTypes.declared_map]

end ProgramTypes

/-! ### What written types say about typings -/

theorem forall₂_append_iff {α β : Type} {R : α → β → Prop} {as as' : List α} {bs bs' : List β}
    (h : as.length = bs.length) :
    List.Forall₂ R (as ++ as') (bs ++ bs') ↔ List.Forall₂ R as bs ∧ List.Forall₂ R as' bs' := by
  refine ⟨fun hR => ?_, fun hR => List.rel_append hR.1 hR.2⟩
  have htake := List.forall₂_take_append _ _ _ hR
  have hdrop := List.forall₂_drop_append _ _ _ hR
  rw [← h, List.take_left] at htake
  rw [← h, List.drop_left] at hdrop
  exact ⟨htake, hdrop⟩

theorem DeclTyped.iff_bare {d : Decl} :
    DeclTyped Γ d τ Γ' ↔ DeclTyped Γ d.bare τ Γ' ∧ d.Allows τ := by
  constructor
  · rintro ⟨hnone, hallows⟩
    exact ⟨.declare hnone (fun _ h => nomatch h), hallows⟩
  · rintro ⟨⟨hnone, -⟩, hallows⟩
    exact .declare hnone hallows

theorem DeclsTyped.iff_bare {ds : List Decl} :
    DeclsTyped Γ ds τs Γ' ↔
      DeclsTyped Γ (ds.map Decl.bare) τs Γ' ∧ List.Forall₂ Decl.Allows ds τs := by
  constructor
  · intro h
    induction h with
    | nil => exact ⟨.nil, .nil⟩
    | cons hd _ ih =>
      obtain ⟨hd, hallows⟩ := DeclTyped.iff_bare.1 hd
      exact ⟨.cons hd ih.1, .cons hallows ih.2⟩
  · rintro ⟨h, hallows⟩
    induction hallows generalizing Γ with
    | nil =>
      cases h
      exact .nil
    | cons hd _ ih =>
      obtain _ | ⟨h, hs⟩ := h
      exact .cons (DeclTyped.iff_bare.2 ⟨h, hd⟩) (ih hs)

mutual

/-- A statement's types are types of the statement without written ones, and the written ones. -/
theorem StmtTyped.bare : ∀ {s : Stmt} {Γ Γ' : Context} {τs : List GroundTy},
    StmtTyped ret Γ s τs Γ' →
      StmtTyped ret Γ s.bare τs Γ' ∧ List.Forall₂ Decl.Allows s.declarations τs
  | .decl _ _, _, _, _, .decl hd => by
    obtain ⟨hd, hallows⟩ := DeclTyped.iff_bare.1 hd
    exact ⟨.decl hd, .cons hallows .nil⟩
  | .block _ _ _, _, _, _, .block hds hss => by
    obtain ⟨hds, hallows⟩ := DeclsTyped.iff_bare.1 hds
    exact ⟨.block hds hss.bare.1, List.rel_append hallows hss.bare.2⟩
  | .assign _ _ _, _, _, _, .assign hx he => ⟨.assign hx he, .nil⟩
  | .ifThen _ _ _, _, _, _, .ifThen hc ht => ⟨.ifThen hc ht.bare.1, ht.bare.2⟩
  | .ifElse _ _ _ _, _, _, _, .ifElse hc ht he =>
    ⟨.ifElse hc ht.bare.1 he.bare.1, List.rel_append ht.bare.2 he.bare.2⟩
  | .while _ _ _, _, _, _, .while hc hb => ⟨.while hc hb.bare.1, hb.bare.2⟩
  | .return _ _, _, _, _, .return hret he => ⟨.return hret he, .nil⟩

theorem StmtsTyped.bare : ∀ {ss : List Stmt} {Γ Γ' : Context} {τs : List GroundTy},
    StmtsTyped ret Γ ss τs Γ' → StmtsTyped ret Γ (Stmt.bareAll ss) τs Γ' ∧
      List.Forall₂ Decl.Allows (Stmt.declarationsAll ss) τs
  | [], _, _, _, .nil => ⟨.nil, .nil⟩
  | _ :: _, _, _, _, .cons h hs => ⟨.cons h.bare.1 hs.bare.1, List.rel_append h.bare.2 hs.bare.2⟩

end

theorem StmtTyped.length_eq {s : Stmt} (h : StmtTyped ret Γ s.bare τs Γ') :
    s.declarations.length = τs.length := by
  rw [← h.bare.2.length_eq, Stmt.declarations_bare, List.length_map]

mutual

/-- The other way round, types of the statement without written ones are types of the statement if
they are the written ones. -/
theorem StmtTyped.of_bare : ∀ (s : Stmt) {Γ Γ' : Context} {τs : List GroundTy},
    StmtTyped ret Γ s.bare τs Γ' → List.Forall₂ Decl.Allows s.declarations τs →
      StmtTyped ret Γ s τs Γ'
  | .decl _ _, _, _, _, .decl hd, .cons hallows .nil =>
    .decl (DeclTyped.iff_bare.2 ⟨hd, hallows⟩)
  | .block _ ds ss, _, _, _, .block hds hss, hallows => by
    have hlength := hds.allows.length_eq
    rw [List.length_map] at hlength
    obtain ⟨hallows, hallows'⟩ := (forall₂_append_iff hlength).1 hallows
    exact .block (DeclsTyped.iff_bare.2 ⟨hds, hallows⟩) (StmtsTyped.of_bare ss hss hallows')
  | .assign _ _ _, _, _, _, .assign hx he, _ => .assign hx he
  | .ifThen _ _ t, _, _, _, .ifThen hc ht, hallows => .ifThen hc (StmtTyped.of_bare t ht hallows)
  | .ifElse _ _ t e, _, _, _, .ifElse hc ht he, hallows => by
    obtain ⟨hallows, hallows'⟩ := (forall₂_append_iff ht.length_eq).1 hallows
    exact .ifElse hc (StmtTyped.of_bare t ht hallows) (StmtTyped.of_bare e he hallows')
  | .while _ _ b, _, _, _, .while hc hb, hallows => .while hc (StmtTyped.of_bare b hb hallows)
  | .return _ _, _, _, _, .return hret he, _ => .return hret he

theorem StmtsTyped.of_bare : ∀ (ss : List Stmt) {Γ Γ' : Context} {τs : List GroundTy},
    StmtsTyped ret Γ (Stmt.bareAll ss) τs Γ' →
      List.Forall₂ Decl.Allows (Stmt.declarationsAll ss) τs → StmtsTyped ret Γ ss τs Γ'
  | [], _, _, _, .nil, _ => .nil
  | s :: ss, _, _, _, .cons h hs, hallows => by
    obtain ⟨hallows, hallows'⟩ := (forall₂_append_iff h.length_eq).1 hallows
    exact .cons (StmtTyped.of_bare s h hallows) (StmtsTyped.of_bare ss hs hallows')

end

/-! ### Functions and programs -/

theorem FuncTyped.iff_bare {f : FuncDef} {t : FuncTypes GroundTy} :
    FuncTyped F f t ↔
      FuncTyped F f.bare t ∧ List.Forall₂ Decl.Allows f.declarations t.declared := by
  constructor
  · rintro ⟨hds, hs⟩
    obtain ⟨hds, hallows⟩ := DeclsTyped.iff_bare.1 hds
    exact ⟨.body hds hs.bare.1, List.rel_append hallows hs.bare.2⟩
  · rintro ⟨⟨hds, hs⟩, hallows⟩
    have hlength := hds.allows.length_eq
    rw [FuncDef.bare, List.length_map] at hlength
    obtain ⟨hallows, hallows'⟩ := (forall₂_append_iff hlength).1 hallows
    exact .body (DeclsTyped.iff_bare.2 ⟨hds, hallows⟩) (.of_bare _ hs hallows')

theorem FuncTyped.length_eq {f : FuncDef} {t : FuncTypes GroundTy} (h : FuncTyped F f.bare t) :
    f.declarations.length = t.declared.length := by
  rw [← (iff_bare.1 h).2.length_eq, FuncDef.declarations_bare, List.length_map]

theorem funcsTyped_iff_bare {fs : List FuncDef} {ts : List (FuncTypes GroundTy)} :
    List.Forall₂ (FuncTyped F) fs ts ↔ List.Forall₂ (FuncTyped F) (fs.map FuncDef.bare) ts ∧
      List.Forall₂ Decl.Allows (fs.flatMap FuncDef.declarations)
        (ts.flatMap FuncTypes.declared) := by
  constructor
  · intro h
    induction h with
    | nil => exact ⟨.nil, .nil⟩
    | cons hf _ ih =>
      obtain ⟨hf, hallows⟩ := FuncTyped.iff_bare.1 hf
      exact ⟨.cons hf ih.1, List.rel_append hallows ih.2⟩
  · rintro ⟨h, hallows⟩
    induction fs generalizing ts with
    | nil =>
      cases h
      exact .nil
    | cons f fs ih =>
      obtain _ | ⟨hf, hfs⟩ := h
      rw [List.flatMap_cons, List.flatMap_cons, forall₂_append_iff hf.length_eq] at hallows
      exact .cons (FuncTyped.iff_bare.2 ⟨hf, hallows.1⟩) (ih hfs hallows.2)

/-- Functions are declared by their names. -/
theorem funcsDeclared_bare {fs : List FuncDef} {ts : List (FuncTypes GroundTy)} :
    FuncsDeclared F (fs.map FuncDef.bare) ts F' ↔ FuncsDeclared F fs ts F' := by
  induction fs generalizing F ts with
  | nil => exact ⟨fun h => by cases h; exact .nil, fun h => by cases h; exact .nil⟩
  | cons f fs ih =>
    constructor
    · rintro (_ | ⟨hnone, h⟩)
      exact .cons hnone (ih.1 h)
    · rintro (_ | ⟨hnone, h⟩)
      exact .cons hnone (ih.2 h)

/-- **Written types only rule out typings.**  The typings of a program are those of the program
without written types in which each declaration has the type that is written. -/
theorem ProgramTyped.iff_bare {p : Program} {t : ProgramTypes GroundTy} :
    ProgramTyped p t Γ ↔
      ProgramTyped p.bare t Γ ∧ List.Forall₂ Decl.Allows p.declarations t.declared := by
  constructor
  · rintro ⟨hdeclared, hfs, hds, hss⟩
    obtain ⟨hfs, hallows⟩ := funcsTyped_iff_bare.1 hfs
    obtain ⟨hds, hallows'⟩ := DeclsTyped.iff_bare.1 hds
    exact ⟨.mk (funcsDeclared_bare.2 hdeclared) hfs hds hss.bare.1,
      List.rel_append hallows (List.rel_append hallows' hss.bare.2)⟩
  · rintro ⟨⟨hdeclared, hfs, hds, hss⟩, hallows⟩
    have hlength : (p.functions.flatMap FuncDef.declarations).length =
        (t.functions.flatMap FuncTypes.declared).length := by
      have hlength := (funcsTyped_iff_bare.1 hfs).2.length_eq
      simpa [Program.bare, List.length_flatMap, Function.comp_def, FuncDef.declarations_bare]
        using hlength
    have hlength' := hds.allows.length_eq
    rw [Program.bare, List.length_map] at hlength'
    rw [Program.declarations, ProgramTypes.declared, forall₂_append_iff hlength,
      forall₂_append_iff hlength'] at hallows
    obtain ⟨hallows, hallows', hallows''⟩ := hallows
    exact .mk (funcsDeclared_bare.1 hdeclared) (funcsTyped_iff_bare.2 ⟨hfs, hallows⟩)
      (DeclsTyped.iff_bare.2 ⟨hds, hallows'⟩) (.of_bare _ hss hallows'')

/-! ### Changing written types -/

theorem forall₂_of_forall₂ {α β γ : Type} {R : α → β → Prop} {A : α → γ → Prop}
    {B : β → γ → Prop} {as : List α} {bs : List β} {cs : List γ} (hR : List.Forall₂ R as bs)
    (hA : List.Forall₂ A as cs) (h : ∀ a b c, R a b → A a c → B b c) : List.Forall₂ B bs cs := by
  induction hR generalizing cs with
  | nil =>
    cases hA
    exact .nil
  | cons hab _ ih =>
    obtain _ | ⟨hac, hA⟩ := hA
    exact .cons (h _ _ _ hab hac) (ih hA)

theorem forall₂_zip_map {α β γ : Type} {A : α → γ → Prop} {f : β → γ} {as : List α} {bs : List β}
    (h : List.Forall₂ A as (bs.map f)) :
    List.Forall₂ (fun x c => A x.1 c ∧ c = f x.2) (as.zip bs) (bs.map f) := by
  induction bs generalizing as with
  | nil =>
    cases h
    exact .nil
  | cons b bs ih =>
    obtain _ | ⟨hab, h⟩ := h
    exact .cons ⟨hab, rfl⟩ (ih h)

namespace Program

variable {p p' : Program} {t : ProgramTypes GroundTy} {nodes : ProgramTypes NodeId}
  {s s' : Session} {M : Valuation}

/-- `p'` is `p` with some written types left out. -/
structure Forgets (p p' : Program) : Prop where
  /-- Nothing but written types is changed. -/
  bare : p'.bare = p.bare
  /-- A type is the same or left out. -/
  types : List.Forall₂ (fun d d' => d'.type = d.type ∨ d'.type = none) p.declarations
    p'.declarations

/-- `p'` is `p` with types written where none were, for declarations whose nodes stand for these
types in the store. -/
structure Records (p : Program) (nodes : ProgramTypes NodeId) (store : TypeStore)
    (p' : Program) : Prop where
  /-- Nothing but written types is changed. -/
  bare : p'.bare = p.bare
  /-- A type is the same, or it is the one that the node of the declaration stands for. -/
  types : List.Forall₂ (fun (x : Decl × NodeId) d' => d'.type = x.1.type ∨
      x.1.type = none ∧ ∃ b, d'.type = some b ∧
        store.node? (store.resolve x.2) = some (.constant b))
    (p.declarations.zip nodes.declared) p'.declarations

/-- A typing does not need written types. -/
theorem Forgets.typed (h : p.Forgets p') (ht : ProgramTyped p t Γ) : ProgramTyped p' t Γ := by
  obtain ⟨ht, hallows⟩ := ProgramTyped.iff_bare.1 ht
  refine ProgramTyped.iff_bare.2 ⟨h.bare ▸ ht, forall₂_of_forall₂ h.types hallows ?_⟩
  rintro d d' τ (htype | htype) hd b hb
  · exact hd b (htype ▸ hb)
  · cases htype.symm.trans hb

/-- A typing that the store admits has the types that nodes stand for. -/
theorem Records.typed (h : p.Records nodes s.types p') (hs : s.types.WellFormed)
    (hM : s.types.Admits M) (ht : ProgramTyped p (nodes.map M) Γ) :
    ProgramTyped p' (nodes.map M) Γ := by
  obtain ⟨ht, hallows⟩ := ProgramTyped.iff_bare.1 ht
  rw [ProgramTypes.declared_map] at hallows
  refine ProgramTyped.iff_bare.2 ⟨h.bare ▸ ht, ?_⟩
  rw [ProgramTypes.declared_map]
  refine forall₂_of_forall₂ h.types (forall₂_zip_map hallows) ?_
  rintro ⟨d, i⟩ d' τ (htype | ⟨-, b, htype, hnode⟩) ⟨hd, rfl⟩ b' hb'
  · exact hd b' (htype ▸ hb')
  · cases htype.symm.trans hb'
    rw [← hM.resolve hs, hM.constant hnode]

theorem Records.untyped (h : p.Records nodes s.types p')
    (hlength : p.declarations.length = nodes.declared.length) (ht : ProgramTyped p' t Γ) :
    ProgramTyped p t Γ := by
  obtain ⟨ht, hallows⟩ := ProgramTyped.iff_bare.1 ht
  refine ProgramTyped.iff_bare.2 ⟨h.bare ▸ ht, ?_⟩
  rw [← List.map_fst_zip (le_of_eq hlength), List.forall₂_map_left_iff]
  refine forall₂_of_forall₂ h.types.flip hallows ?_
  rintro d' ⟨d, i⟩ τ (htype | ⟨hnone, -⟩) hd' b hb
  · exact hd' b (htype ▸ hb)
  · cases hnone.symm.trans hb

/-- **Written types agree with inference.**  Let a program be accepted.  With some written types left
out it is accepted, and the types that were shown are instances of those that are shown now.  With
types written for declarations whose nodes stand for them in the end, it is accepted, and the types
shown differ in the names of variables only, which are renamed alike in all of them. -/
theorem check_annotations (p : Program) (s : Session) (h : p.check = .ok () s) :
    ∃ nodes, p.nodes? = some nodes ∧
    (∀ p', p.Forgets p' → ∃ s', p'.check = .ok () s' ∧ ∃ σ : Nat → Ty,
      s'.globalTypes = s'.globalTerms.map (fun d => (d.1, d.2.text)) ∧
      s.globalTypes = s'.globalTerms.map fun d => (d.1, (d.2.subst σ).text)) ∧
    ∀ p', p.Records nodes s.types p' → ∃ s', p'.check = .ok () s' ∧ ∃ ρ : Equiv.Perm Nat,
      s.globalTypes = s.globalTerms.map (fun d => (d.1, d.2.text)) ∧
      s'.globalTypes = s.globalTerms.map fun d => (d.1, (d.2.rename ρ).text) := by
  obtain ⟨nodes, hnodes, hold⟩ : ∃ nodes, p.nodes? = some nodes ∧ p.Holds nodes s := by
    rcases p.check_cases with ⟨s', nodes, hs', hnodes, hold⟩ | ⟨⟨d, s', hs'⟩, -, -⟩
    · rw [h] at hs'
      cases hs'
      exact ⟨nodes, hnodes, hold⟩
    · rw [h] at hs'
      cases hs'
  obtain ⟨scope, hs⟩ := exists_concludes h
  -- a program with all the typings is accepted and shows more general types
  have hshow : ∀ {p'}, (∀ Γ, (∃ t, ProgramTyped p t Γ) → ∃ t, ProgramTyped p' t Γ) →
      ∃ s' scope', p'.check = .ok () s' ∧ p'.Concludes s' scope' := by
    intro p' hthere
    obtain ⟨Γ, ht⟩ := exists_check_iff.1 ⟨s, h⟩
    obtain ⟨s', hs'⟩ := exists_check_iff.2 ⟨Γ, hthere Γ ht⟩
    exact ⟨s', (exists_concludes hs').imp fun scope' hscope' => ⟨hs', hscope'⟩⟩
  refine ⟨nodes, hnodes, fun p' hp' => ?_, fun p' hp' => ?_⟩
  · have hthere : ∀ Γ, (∃ t, ProgramTyped p t Γ) → ∃ t, ProgramTyped p' t Γ :=
      fun Γ ⟨t, ht⟩ => ⟨t, hp'.typed ht⟩
    obtain ⟨s', scope', hcheck', hs'⟩ := hshow hthere
    obtain ⟨σ, hσ⟩ := Ty.exists_subst_of_instances (hs.exists_instance hs' hthere)
    refine ⟨s', hcheck', σ, s'.globalTypes_eq, ?_⟩
    rw [s.globalTypes_eq, hs.globalTerms_eq, hs'.globalTerms_eq, hσ, hs.names_eq hs' hthere,
      List.zip_map_right, List.map_map]
    rfl
  · have hthere : ∀ Γ, (∃ t, ProgramTyped p t Γ) → ∃ t, ProgramTyped p' t Γ := by
      rintro Γ ⟨t, ht⟩
      obtain ⟨M, hM, rfl⟩ := hold.complete t ⟨Γ, ht⟩
      exact ⟨_, hp'.typed hold.wellFormed hM ht⟩
    have hM := TypeStore.admits_groundAt hold.wellFormed fun _ => .base .int
    have hlength : p.declarations.length = nodes.declared.length := by
      have hlength := (ProgramTyped.iff_bare.1 (hold.sound _ hM)).2.length_eq
      rwa [ProgramTypes.declared_map, List.length_map] at hlength
    have hback : ∀ Γ, (∃ t, ProgramTyped p' t Γ) → ∃ t, ProgramTyped p t Γ :=
      fun Γ ⟨t, ht⟩ => ⟨t, hp'.untyped hlength ht⟩
    obtain ⟨s', scope', hcheck', hs'⟩ := hshow hthere
    obtain ⟨ρ, hρ⟩ := Ty.exists_rename_of_instances (hs.exists_instance hs' hthere)
      (hs'.exists_instance hs hback)
    refine ⟨s', hcheck', ρ, s.globalTypes_eq, ?_⟩
    rw [s'.globalTypes_eq, hs'.globalTerms_eq, hs.globalTerms_eq, hρ, ← hs.names_eq hs' hthere,
      List.zip_map_right, List.map_map]
    rfl

/-- `f(x) { y; y := x; return y; }` with types for `x` and `y`. -/
def copier (type type' : Option BaseType) : Program where
  functions := [⟨"f", [⟨"x", type, .nowhere⟩], .block .nowhere [⟨"y", type', .nowhere⟩]
    [.assign .nowhere "y" (.name .nowhere "x"), .return .nowhere (.name .nowhere "y")], .nowhere⟩]
  globals := []
  main := []

/-- With a type for `x` only, that of `x` can be left out and that of `y` can be written. -/
theorem check_annotations_copier : ∃ s, (copier (some .int) none).check = .ok () s ∧
    (∃ s', (copier none none).check = .ok () s' ∧ ∃ σ : Nat → Ty,
      s.globalTypes = s'.globalTerms.map fun d => (d.1, (d.2.subst σ).text)) ∧
    ∃ s', (copier (some .int) (some .int)).check = .ok () s' ∧ ∃ ρ : Equiv.Perm Nat,
      s'.globalTypes = s.globalTerms.map fun d => (d.1, (d.2.rename ρ).text) := by
  have hplaces : (copier (some .int) none).nodes?.map (·.declared) = some [0, 4] := by
    decide +kernel
  have hrun : (match (copier (some .int) none).check with
      | .ok _ s => decide (s.types.node? (s.types.resolve 4) = some (.constant .int))
      | _ => false) = true := by decide +kernel
  rcases hs : (copier (some .int) none).check with ⟨_, s⟩ | ⟨_, s⟩
  · rw [hs] at hrun
    have hnode := of_decide_eq_true hrun
    obtain ⟨nodes, hnodes, hforget, hrecord⟩ := check_annotations _ s hs
    rw [hnodes] at hplaces
    have hdeclared : nodes.declared = [0, 4] := Option.some.inj hplaces
    have hforgets : (copier (some .int) none).Forgets (copier none none) :=
      ⟨rfl, .cons (.inr rfl) (.cons (.inl rfl) .nil)⟩
    have hrecords : (copier (some .int) none).Records nodes s.types
        (copier (some .int) (some .int)) := by
      refine ⟨rfl, ?_⟩
      rw [hdeclared]
      exact .cons (.inl rfl) (.cons (.inr ⟨rfl, .int, rfl, hnode⟩) .nil)
    obtain ⟨s₁, hs₁, σ, -, hσ⟩ := hforget _ hforgets
    obtain ⟨s₂, hs₂, ρ, -, hρ⟩ := hrecord _ hrecords
    exact ⟨s, rfl, ⟨s₁, hs₁, σ, hσ⟩, s₂, hs₂, ρ, hρ⟩
  · rw [hs] at hrun
    cases hrun

end Program

end SimpleLang
