import SimpleLang.Proofs.Check.Safety
import SimpleLang.Proofs.Parse.Recognition

/-!
# What a check reports, and where

Each problem that a check reports fits the token at which it is reported: a name that is not
declared or cannot be called stands there as an identifier, a second declaration begins there and
its name comes next, a return outside of functions is a `return` (`Diagnostic.PointsInto`).

The check knows trees and positions only, so the walk goes through a tree together with the phrase
that spells it.
-/

namespace SimpleLang

/-! ### Problems and tokens -/

/-- The problem can be that of the token `t` before the tokens `after`. -/
def Problem.Fits : Problem → Token → List Token → Prop
  | .undeclaredName x, t, _ | .notCallable x _, t, _ => t.kind = .identifier ∧ t.text = x
  | .duplicateDeclaration x, t, after =>
    t.kind ∈ [.varKw, .intKw, .boolKw, .funcKw] ∧
      ∃ name rest, after = name :: rest ∧ name.kind = .identifier ∧ name.text = x
  | .returnOutsideFunction, t, _ => t.kind = .returnKw
  | .numberParseError x, t, _ => t.kind = .number ∧ t.text = x
  | _, _, _ => True

/-- The diagnostic is reported where a token starts that fits the problem. -/
def Diagnostic.PointsInto (d : Diagnostic) (tokens : List Token) : Prop :=
  ∃ before t after, tokens = before ++ t :: after ∧ d.position = t.span.start ∧
    d.problem.Fits t after

variable {tokens ts : List Token} {t : Token} {d : Diagnostic}

theorem Diagnostic.pointsInto_of_isInfix (h : t :: ts <:+: tokens)
    (hposition : d.position = t.span.start) (hfits : ∀ after, d.problem.Fits t (ts ++ after)) :
    d.PointsInto tokens := by
  obtain ⟨before, after, rfl⟩ := h
  exact ⟨before, t, ts ++ after, by simp, hposition, hfits after⟩

/-- A problem of types that do not fit. -/
inductive Problem.OfTypes : Problem → Prop
  | typeMismatch (expected received : String) : OfTypes (.typeMismatch expected received)
  | arityMismatch (expected received : Nat) : OfTypes (.arityMismatch expected received)

theorem Problem.OfTypes.fits {problem : Problem} (h : problem.OfTypes) (after : List Token) :
    problem.Fits t after := by
  cases h <;> trivial

/-- A problem of types can be reported at any token. -/
theorem Problem.OfTypes.pointsInto {problem : Problem} (h : problem.OfTypes)
    (hts : t :: ts <:+: tokens) : Diagnostic.PointsInto ⟨problem, t.span.start⟩ tokens :=
  Diagnostic.pointsInto_of_isInfix hts rfl fun _ => h.fits _

/-- What a failure reports has the property, if it is no breach. -/
def Failure.Reports {ε : Type} (P : ε → Prop) : Failure ε → Prop
  | .rejected e => P e
  | .breach _ => True

/-! ### Making types equal -/

namespace Unifier

/-- The step reports problems of types only. -/
abbrev Reports {α : Type} (i : Inference) (x : Unifier α) : Prop :=
  Raises i x fun e _ => e.Reports Problem.OfTypes

variable {i : Inference}

theorem node_reports (n : NodeId) : Reports i (node n) := by
  refine .bind (.of_ok rfl) fun node _ _ => ?_
  split
  · exact .of_ok rfl
  · exact .of_error rfl trivial

theorem mismatch_reports (expected received : NodeId) : Reports i (mismatch expected received) :=
  .bind (.of_ok rfl) fun _ _ _ => .bind (.of_ok rfl) fun _ _ _ =>
    .of_error rfl (.typeMismatch _ _)

theorem bindTo_reports (var target : NodeId) : Reports i (bindTo var target) := by
  unfold bindTo
  split
  · exact .of_error rfl trivial
  · refine .bind (node_reports var) fun node _ _ => ?_
    split
    · exact .bind (.of_ok rfl) fun _ _ _ => .of_ok rfl
    · exact .of_error rfl trivial

theorem assign_reports (var target : NodeId) : Reports i (assign var target) := by
  refine .bind (.of_ok rfl) fun _ _ _ => .bind (.of_ok rfl) fun _ _ _ =>
    .bind (.of_ok rfl) fun occurs _ _ => ?_
  split
  · exact .of_error rfl (.typeMismatch _ _)
  · exact .bind (.of_ok rfl) fun _ _ _ => bindTo_reports var target

theorem forPairs_reports {f : NodeId → NodeId → Unifier Unit}
    (h : ∀ a b i, Reports i (f a b)) (as bs : List NodeId) : Reports i (forPairs f as bs) := by
  induction as generalizing bs i with
  | nil => exact .of_ok rfl
  | cons a as ih =>
    cases bs with
    | nil => exact .of_ok rfl
    | cons b bs => exact .bind (h a b i) fun _ _ _ => ih bs

theorem unifyWithin_reports (n : Nat) (expected received : NodeId) :
    Reports i (unifyWithin n expected received) := by
  induction n generalizing expected received i with
  | zero => exact .of_error rfl trivial
  | succ n ih =>
    refine .bind (.of_ok rfl) fun expected _ _ => .bind (.of_ok rfl) fun received _ _ => ?_
    split
    · exact .of_ok rfl
    refine .bind (.of_ok rfl) fun unbound _ _ => ?_
    split
    · exact assign_reports _ _
    refine .bind (.of_ok rfl) fun unbound _ _ => ?_
    split
    · exact assign_reports _ _
    refine .bind (node_reports expected) fun node _ _ =>
      .bind (node_reports received) fun node' _ _ => ?_
    split
    · split
      · exact .of_ok rfl
      · exact mismatch_reports _ _
    · split
      · exact .bind (ih _ _) fun _ _ _ => forPairs_reports (fun _ _ _ => ih _ _) _ _
      · exact .of_error rfl (.arityMismatch _ _)
    · exact mismatch_reports _ _

theorem unify_reports (expected received : NodeId) : Reports i (unify expected received) :=
  .bind (.of_ok rfl) fun _ _ _ => unifyWithin_reports _ _ _

end Unifier

/-! ### Steps of a check -/

namespace Checker

/-- What the step reports has the property. -/
abbrev Reports {α : Type} (P : Diagnostic → Prop) (s : Session) (x : Checker α) : Prop :=
  Raises s x fun e _ => e.Reports P

variable {α : Type} {P : Diagnostic → Prop} {s : Session} {x : String} {position : Position}

theorem infer_reports {work : Unifier α} (h : Unifier.Reports s.toInference work)
    (hP : ∀ problem, problem.OfTypes → P ⟨problem, position⟩) :
    Reports P s (infer position work) := by
  cases hrun : work s.toInference with
  | ok a i => exact .of_ok (infer_of_ok hrun)
  | error e i =>
    have hinfer : infer position work s =
        .error (e.map (⟨·, position⟩)) { s with toInference := i } := by
      rw [infer, hrun]
    refine .of_error hinfer ?_
    cases e with
    | rejected problem => exact hP problem (h _ _ hrun)
    | breach b => trivial

theorem unify_reports (hP : ∀ problem, problem.OfTypes → P ⟨problem, position⟩)
    (expected received : NodeId) : Reports P s (unify expected received position) :=
  infer_reports (Unifier.unify_reports expected received) hP

theorem representative_reports (hP : ∀ problem, problem.OfTypes → P ⟨problem, position⟩)
    (type : NodeId) : Reports P s (representative type position) :=
  infer_reports (.bind (.of_ok rfl) fun root _ _ => .bind (Unifier.node_reports root)
    fun _ _ _ => .of_ok rfl) hP

theorem reject_reports {problem : Problem} (h : P ⟨problem, position⟩) :
    Reports P s (reject problem position : Checker α) :=
  .of_error rfl h

theorem lookup_reports (h : P ⟨.undeclaredName x, position⟩) : Reports P s (lookup x position) := by
  refine .bind (.of_ok rfl) fun t _ _ => ?_
  split
  · exact .of_ok rfl
  · exact reject_reports h

theorem declare_reports (h : P ⟨.duplicateDeclaration x, position⟩) (type : NodeId) :
    Reports P s (declare x type position) := by
  refine .bind (.of_ok rfl) fun t _ _ => ?_
  split
  · exact .of_ok rfl
  · exact .of_error rfl trivial
  · exact reject_reports h

theorem andThenAlways_reports {work : Checker α} {after : Checker Unit} (hwork : Reports P s work)
    (hafter : ∀ t, Reports P t after) : Reports P s (andThenAlways work after) := by
  intro e t hrun
  unfold andThenAlways at hrun
  split at hrun
  · exact Raises.bind (hafter _) (fun _ _ _ => .of_ok rfl) e t hrun
  · rename_i d u hd
    exact Raises.bind (hafter _) (fun _ _ _ => .of_error rfl (hwork _ _ hd)) e t hrun
  · cases hrun
    trivial

theorem withScope_reports {work : Checker α} (h : ∀ t, Reports P t work) :
    Reports P s (withScope work) := by
  refine .bind (.of_ok rfl) fun _ t _ => andThenAlways_reports (h t) fun u => ?_
  refine .bind (.of_ok rfl) fun v _ _ => ?_
  split
  · exact .of_error rfl trivial
  · exact .of_ok rfl

/-! ### Expressions -/

/-- What the check of an expression reports has the property, and so has every problem of types that
is reported where the expression starts. -/
structure ExprReports (P : Diagnostic → Prop) (e : Expr) : Prop where
  /-- What the check reports. -/
  check : ∀ s, Reports P s (expr e)
  /-- Problems where it starts. -/
  start : ∀ problem, problem.OfTypes → P ⟨problem, e.span.start⟩

theorem operation_reports {e e' : Expr} (he : ExprReports P e) (he' : ExprReports P e')
    (op : BinaryOp) (left right : NodeId) :
    Reports P s (operation op left right e.span.start e'.span.start) := by
  unfold operation
  split
  · exact .bind (unify_reports he.start _ _) fun _ _ _ => .bind (unify_reports he'.start _ _)
      fun _ _ _ => .of_ok rfl
  · exact .bind (unify_reports he'.start _ _) fun _ _ _ => .of_ok rfl

theorem checkArguments_reports {es : List Expr} (h : ∀ e ∈ es, ExprReports P e)
    (params : List NodeId) : Reports P s (checkArguments params es) := by
  induction es generalizing params s with
  | nil =>
    cases params <;> exact .of_ok rfl
  | cons e es ih =>
    obtain ⟨he, hes⟩ := List.forall_mem_cons.1 h
    cases params with
    | nil => exact .of_ok rfl
    | cons param params =>
      rw [checkArguments]
      exact .bind (he.check s) fun _ _ _ => .bind (unify_reports he.start _ _) fun _ _ _ =>
        ih hes params

theorem inferArguments_reports {es : List Expr} (h : ∀ e ∈ es, ExprReports P e) :
    Reports P s (inferArguments es) := by
  induction es generalizing s with
  | nil => exact .of_ok rfl
  | cons e es ih =>
    obtain ⟨he, hes⟩ := List.forall_mem_cons.1 h
    rw [inferArguments]
    exact .bind (he.check s) fun _ _ _ => .bind (ih hes) fun _ _ _ => .of_ok rfl

theorem call_reports {span : Span} {callee : String} {es : List Expr}
    (hes : ∀ e ∈ es, ExprReports P e)
    (htypes : ∀ problem, problem.OfTypes → P ⟨problem, span.start⟩)
    (hname : P ⟨.undeclaredName callee, span.start⟩)
    (hcall : ∀ found, P ⟨.notCallable callee found, span.start⟩) :
    Reports P s (expr (.call span callee es)) := by
  rw [expr]
  refine .bind (lookup_reports hname) fun type _ _ =>
    .bind (representative_reports htypes type) fun (root, node) _ _ => ?_
  dsimp only
  split
  · split
    · exact .bind (checkArguments_reports hes _) fun _ _ _ => .of_ok rfl
    · exact reject_reports (htypes _ (.arityMismatch _ _))
  · exact .bind (inferArguments_reports hes) fun _ _ _ => .bind (.of_ok rfl) fun _ _ _ =>
      .bind (.of_ok rfl) fun _ _ _ => .bind (unify_reports htypes _ _) fun _ _ _ => .of_ok rfl
  · exact .bind (.of_ok rfl) fun found _ _ => reject_reports (hcall found)

/-! ### Statements and functions -/

theorem declaration_reports {decl : Decl}
    (h : P ⟨.duplicateDeclaration decl.name, decl.span.start⟩) : Reports P s (declaration decl) :=
  .bind (.of_ok rfl) fun type _ _ => .bind (declare_reports h type) fun _ _ _ => .of_ok rfl

theorem declarations_reports {ds : List Decl}
    (h : ∀ d ∈ ds, P ⟨.duplicateDeclaration d.name, d.span.start⟩) :
    Reports P s (declarations ds) := by
  induction ds generalizing s with
  | nil => exact .of_ok rfl
  | cons d ds ih =>
    obtain ⟨hd, hds⟩ := List.forall_mem_cons.1 h
    exact .bind (declaration_reports hd) fun _ _ _ => ih hds

theorem condition_reports {e : Expr} (he : ExprReports P e) : Reports P s (condition e) :=
  .bind (he.check s) fun _ _ _ => unify_reports he.start _ _

theorem stmts_reports {ss : List Stmt} (h : ∀ st ∈ ss, ∀ s, Reports P s (stmt st)) :
    Reports P s (stmts ss) := by
  induction ss generalizing s with
  | nil => exact .of_ok rfl
  | cons st ss ih =>
    obtain ⟨hst, hss⟩ := List.forall_mem_cons.1 h
    rw [stmts]
    exact .bind (hst s) fun _ _ _ => ih hss

theorem parameters_reports {ps : List Decl}
    (h : ∀ p ∈ ps, P ⟨.duplicateDeclaration p.name, p.span.start⟩) (types : List NodeId) :
    Reports P s (parameters ps types) := by
  induction ps generalizing types s with
  | nil =>
    cases types <;> exact .of_ok rfl
  | cons p ps ih =>
    obtain ⟨hp, hps⟩ := List.forall_mem_cons.1 h
    cases types with
    | nil => exact .of_ok rfl
    | cons type types => exact .bind (declare_reports hp type) fun _ _ _ => ih hps types

/-- What the registration of a function and the check of its body report has the property. -/
structure FuncReports (P : Diagnostic → Prop) (f : FuncDef) : Prop where
  /-- Its name may be declared already. -/
  name : P ⟨.duplicateDeclaration f.name, f.span.start⟩
  /-- Parameters may have one name. -/
  params : ∀ p ∈ f.params, P ⟨.duplicateDeclaration p.name, p.span.start⟩
  /-- The body is a statement. -/
  body : ∀ s, Reports P s (stmt f.body)

theorem parameterTypes_reports (ps : List Decl) : Reports P s (parameterTypes ps) := by
  induction ps generalizing s with
  | nil => exact .of_ok rfl
  | cons p ps ih => exact .bind (.of_ok rfl) fun _ _ _ => .bind ih fun _ _ _ => .of_ok rfl

theorem signature_reports {f : FuncDef} (h : FuncReports P f) : Reports P s (signature f) :=
  .bind (parameterTypes_reports _) fun _ _ _ => .bind (.of_ok rfl) fun _ _ _ =>
    .bind (.of_ok rfl) fun type _ _ => .bind (declare_reports h.name type) fun _ _ _ => .of_ok rfl

theorem signatures_reports {fs : List FuncDef} (h : ∀ f ∈ fs, FuncReports P f) :
    Reports P s (signatures fs) := by
  induction fs generalizing s with
  | nil => exact .of_ok rfl
  | cons f fs ih =>
    obtain ⟨hf, hfs⟩ := List.forall_mem_cons.1 h
    exact .bind (signature_reports hf) fun _ _ _ => ih hfs

theorem body_reports {f : FuncDef} (h : FuncReports P f) (result : NodeId)
    (params : List NodeId) : Reports P s (body f result params) := by
  refine .bind (.of_ok rfl) fun _ _ _ => .bind (.of_ok rfl) fun _ t _ =>
    andThenAlways_reports (withScope_reports fun u => ?_) fun _ => .of_ok rfl
  exact .bind (parameters_reports h.params params) fun _ v _ => h.body v

/-- All functions that were registered keep their types until the turn of their bodies comes. -/
theorem signatures_registers {fs : List FuncDef} {t : Session} (hs : s.WellFormed)
    (h : signatures fs s = .ok () t) : t.WellFormed ∧ ∀ f ∈ fs, ∃ type, HasSignature f type t := by
  have hfaithful := Access.standard_faithful.simulates
  induction fs generalizing s with
  | nil =>
    cases h
    exact ⟨hs, by simp⟩
  | cons f fs ih =>
    have hfirst := signature_corresponds (D := fun _ => True) hfaithful hs.related f trivial
    rw [signatures] at h
    cases hrun : signature f s with
    | error e u =>
      rw [bind_of_error hrun] at h
      cases h
    | ok type u =>
      rw [bind_of_ok hrun] at h
      rw [hrun] at hfirst
      obtain ⟨hu, -, hsigned⟩ := hfirst.of_ok
      have hrest := signatures_corresponds (D := fun _ => True) hfaithful fs hu.related
        fun _ _ => trivial
      rw [h] at hrest
      obtain ⟨-, hframe, -⟩ := hrest.of_ok
      obtain ⟨ht, hall⟩ := ih hu h
      exact ⟨ht, List.forall_mem_cons.2 ⟨⟨type, hsigned.keep hframe.types hframe.scopes⟩, hall⟩⟩

/-- Where all functions are registered, nothing is reported but what their bodies report. -/
theorem functions_reports {fs : List FuncDef} (h : ∀ f ∈ fs, FuncReports P f) (hs : s.WellFormed)
    (hsigned : ∀ f ∈ fs, ∃ type, HasSignature f type s) : Reports P s (functions fs) := by
  induction fs generalizing s with
  | nil => exact .of_ok rfl
  | cons f fs ih =>
    obtain ⟨hf, hfs⟩ := List.forall_mem_cons.1 h
    obtain ⟨⟨type, hname, result, params, hnode, hlen⟩, hrest⟩ := List.forall_mem_cons.1 hsigned
    have hbody := function_eq_body (Scopes.lookup?_of_here? hname) hnode hlen
    refine .bind (fun e t hrun => body_reports hf result params e t (hbody ▸ hrun))
      fun _ t hrun => ?_
    have hframe := function_corresponds Access.standard_faithful.simulates hs.related f
    rw [hrun] at hframe
    obtain ⟨ht, hframe, -⟩ := hframe.of_ok
    refine ih hfs ht fun g hg => ?_
    obtain ⟨type', hsigned'⟩ := hrest g hg
    have hscopes : s.scopes.Extends (fun _ => True) t.scopes := hframe.scopes ▸ .refl
    exact ⟨type', hsigned'.keep hframe.types hscopes⟩

/-! ### Programs -/

/-- What the check of a program reports has the property, if what its parts report has. -/
theorem items_reports {p : Program} (hf : ∀ f ∈ p.functions, FuncReports P f)
    (hd : ∀ d ∈ p.globals, P ⟨.duplicateDeclaration d.name, d.span.start⟩)
    (hst : ∀ st ∈ p.main, ∀ s, Reports P s (stmt st)) (hs : s.WellFormed) :
    Reports P s (items p) := by
  refine .bind (.of_ok rfl) fun _ t ht => ?_
  have hnote := note_corresponds (D := fun _ => True) Access.standard_faithful.simulates
    (.registering p.functions.length) hs.related
  rw [ht] at hnote
  refine .bind (signatures_reports hf) fun _ u hu => ?_
  obtain ⟨hwf, hsigned⟩ := signatures_registers hnote.of_ok.1 hu
  exact .bind (functions_reports hf hwf hsigned) fun _ _ _ => .bind (.of_ok rfl) fun _ _ _ =>
    .bind (.of_ok rfl) fun _ _ _ => .bind (declarations_reports hd) fun _ _ _ =>
      stmts_reports hst

end Checker

/-! ### Phrases -/

namespace Phrase

open Checker Diagnostic

variable {n : Nat} {e : Expr} {decl : Decl} {st : Stmt} {f : FuncDef} {i : Item} {items : List Item}

/-- A callee is an identifier among its tokens. -/
theorem Callee.exists_identifier (h : Callee ts t) :
    t.kind = .identifier ∧ ∃ us vs, ts = us ++ t :: vs := by
  induction h with
  | name ht => exact ⟨ht, [], [], rfl⟩
  | @group o c t ts _ _ _ ih =>
    obtain ⟨ht, us, vs, rfl⟩ := ih
    exact ⟨ht, o :: us, vs ++ [c], by simp⟩

/-- **What the check of an expression reports** fits the tokens that spell it. -/
theorem Expression.reports (h : Expression n ts e) (hts : ts <:+: tokens) :
    ExprReports (·.PointsInto tokens) e := by
  induction h using Expression.induct with
  | tighter _ ih => exact ih hts
  | @binary _ ts us t op left right _ _ _ _ ihl ihr =>
    have hl := ihl ((List.prefix_append ts _).isInfix.trans hts)
    have hr := ihr (((List.suffix_cons t us).trans (List.suffix_append ts _)).isInfix.trans hts)
    refine ⟨fun s => ?_, hl.start⟩
    rw [expr]
    exact .bind (hl.check s) fun _ _ _ => .bind (hr.check _) fun _ _ _ =>
      operation_reports hl hr op _ _
  | number _ _ =>
    exact ⟨fun _ => by rw [expr]; exact .of_ok rfl,
      fun _ hp => hp.pointsInto hts⟩
  | true _ =>
    exact ⟨fun _ => by rw [expr]; exact .of_ok rfl,
      fun _ hp => hp.pointsInto hts⟩
  | false _ =>
    exact ⟨fun _ => by rw [expr]; exact .of_ok rfl,
      fun _ hp => hp.pointsInto hts⟩
  | name ht =>
    refine ⟨fun s => ?_, fun _ hp => hp.pointsInto hts⟩
    rw [expr]
    exact lookup_reports (pointsInto_of_isInfix hts rfl fun _ => ⟨ht, rfl⟩)
  | @group o c ts e _ _ _ ih =>
    exact ih (((List.prefix_append ts [c]).isInfix.trans
      (List.suffix_cons o _).isInfix).trans hts)
  | @call ts us f o c es hf _ hes _ =>
    obtain ⟨hk, vs, ws, rfl⟩ := hf.exists_identifier
    have hargs : ∀ e ∈ es, ExprReports (·.PointsInto tokens) e := by
      intro e he
      obtain ⟨us', hus', -, ih⟩ := hes.exists_isInfix e he
      exact ih (hus'.trans (List.IsInfix.trans ⟨vs ++ f :: ws ++ [o], [c], by simp⟩ hts))
    rw [List.append_assoc, List.cons_append] at hts
    replace hts := (List.suffix_append vs _).isInfix.trans hts
    have htypes : ∀ problem, problem.OfTypes →
        PointsInto ⟨problem, f.span.start⟩ tokens :=
      fun _ hp => hp.pointsInto hts
    exact ⟨fun _ => call_reports hargs htypes
      (pointsInto_of_isInfix hts rfl fun _ => ⟨hk, rfl⟩)
      (fun _ => pointsInto_of_isInfix hts rfl fun _ => ⟨hk, rfl⟩), htypes⟩

/-! ### Declarations, statements and functions -/

theorem TypedName.pointsInto (h : TypedName ts decl) (hts : ts <:+: tokens) :
    PointsInto ⟨.duplicateDeclaration decl.name, decl.span.start⟩ tokens := by
  cases h with
  | @mk k x type hk hx =>
    refine pointsInto_of_isInfix hts rfl fun after => ⟨?_, x, after, rfl, hx, rfl⟩
    generalize k.kind = kind at hk
    cases hk <;> simp

theorem Declaration.pointsInto (h : Declaration ts decl) (hts : ts <:+: tokens) :
    PointsInto ⟨.duplicateDeclaration decl.name, decl.span.start⟩ tokens := by
  cases h with
  | @mk ts _ semicolon hd _ =>
    exact hd.pointsInto ((List.prefix_append ts [semicolon]).isInfix.trans hts)

/-- **What the check of a statement reports** fits the tokens that spell it. -/
theorem Statement.reports (h : Statement ts st) (hts : ts <:+: tokens) :
    ∀ s, Reports (·.PointsInto tokens) s (stmt st) := by
  induction h using Statement.induct with
  | @block o c ts us ds ss _ hds hss _ =>
    have hds : ∀ d ∈ ds, PointsInto ⟨.duplicateDeclaration d.name, d.span.start⟩ tokens := by
      intro d hd
      obtain ⟨vs, hvs, hd⟩ := hds.exists_isInfix d hd
      exact hd.pointsInto (hvs.trans (List.IsInfix.trans ⟨[o], us ++ [c], by simp⟩ hts))
    have hss : ∀ st ∈ ss, ∀ s, Reports (·.PointsInto tokens) s (stmt st) := by
      intro st hst
      obtain ⟨vs, hvs, -, ih⟩ := hss.exists_isInfix st hst
      exact ih (hvs.trans (List.IsInfix.trans ⟨o :: ts, [c], by simp⟩ hts))
    intro s
    rw [stmt]
    exact withScope_reports fun _ => .bind (declarations_reports hds) fun _ _ _ =>
      stmts_reports hss
  | @assign x a semicolon ts e hx _ he _ =>
    have he := he.reports (List.IsInfix.trans ⟨[x, a], [semicolon], by simp⟩ hts)
    intro s
    rw [stmt]
    exact .bind (lookup_reports (pointsInto_of_isInfix hts rfl fun _ => ⟨hx, rfl⟩)) fun _ _ _ =>
      .bind (he.check _) fun _ _ _ => unify_reports he.start _ _
  | @ifThen k ts us e _ _ he _ ih =>
    have he := he.reports (List.IsInfix.trans ⟨[k], us, by simp⟩ hts)
    have hs := ih (List.IsInfix.trans ⟨k :: ts, [], by simp⟩ hts)
    intro s
    rw [stmt]
    exact .bind (condition_reports he) fun _ t _ => hs t
  | @ifElse k l ts us vs e _ _ _ he _ _ _ ih ih' =>
    have he := he.reports (List.IsInfix.trans ⟨[k], us ++ l :: vs, by simp⟩ hts)
    have hs := ih (List.IsInfix.trans ⟨k :: ts, l :: vs, by simp⟩ hts)
    have hs' := ih' (List.IsInfix.trans ⟨k :: (ts ++ us ++ [l]), [], by simp⟩ hts)
    intro s
    rw [stmt]
    exact .bind (condition_reports he) fun _ t _ => .bind (hs t) fun _ u _ => hs' u
  | @«while» k ts us e _ _ he _ ih =>
    have he := he.reports (List.IsInfix.trans ⟨[k], us, by simp⟩ hts)
    have hs := ih (List.IsInfix.trans ⟨k :: ts, [], by simp⟩ hts)
    intro s
    rw [stmt]
    exact .bind (condition_reports he) fun _ t _ => hs t
  | @«return» k semicolon ts e hk he _ =>
    have he := he.reports (List.IsInfix.trans ⟨[k], [semicolon], by simp⟩ hts)
    intro s
    rw [stmt]
    refine .bind (.of_ok rfl) fun t _ _ => ?_
    split
    · exact reject_reports (pointsInto_of_isInfix hts rfl fun _ => hk)
    · exact .bind (he.check _) fun _ _ _ => unify_reports he.start _ _

theorem Function.reports (h : Function ts f) (hts : ts <:+: tokens) :
    FuncReports (·.PointsInto tokens) f := by
  cases h with
  | @mk k x o c ts us ds s hk hx _ hds _ hs =>
    refine ⟨pointsInto_of_isInfix hts rfl fun after => ⟨by simp [hk], x, _, rfl, hx, rfl⟩,
      fun d hd => ?_, hs.reports ?_⟩
    · obtain ⟨vs, hvs, hd⟩ := hds.exists_isInfix d hd
      exact hd.pointsInto (hvs.trans (List.IsInfix.trans ⟨[k, x, o], c :: us, by simp⟩ hts))
    · exact List.IsInfix.trans ⟨k :: x :: o :: (ts ++ [c]), [], by simp⟩ hts

/-! ### Programs -/

/-- **What the check of a program reports** fits the tokens that spell it. -/
theorem Sequence.reports (h : Sequence NearestTopLevel ts items) (hts : ts <:+: tokens)
    {s : Session} (hs : s.WellFormed) :
    Reports (·.PointsInto tokens) s (Checker.items (.ofItems items)) := by
  refine items_reports (fun f hf => ?_) (fun d hd => ?_) (fun st hst => ?_) hs
  · obtain ⟨i, hi, hfunction⟩ := List.mem_filterMap.1 hf
    obtain ⟨us, hus, hi, -⟩ := h.exists_isInfix i hi
    cases hi with
    | function hf =>
      cases hfunction
      exact hf.reports (hus.trans hts)
    | _ => cases hfunction
  · obtain ⟨i, hi, hglobal⟩ := List.mem_filterMap.1 hd
    obtain ⟨us, hus, hi, -⟩ := h.exists_isInfix i hi
    cases hi with
    | global hd =>
      cases hglobal
      exact hd.pointsInto (hus.trans hts)
    | _ => cases hglobal
  · obtain ⟨i, hi, hmain⟩ := List.mem_filterMap.1 hst
    obtain ⟨us, hus, hi, -⟩ := h.exists_isInfix i hi
    cases hi with
    | main hs =>
      cases hmain
      exact hs.reports (hus.trans hts)
    | _ => cases hmain

end Phrase

end SimpleLang
