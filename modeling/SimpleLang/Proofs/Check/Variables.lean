import SimpleLang.Proofs.Check.Annotation
import SimpleLang.Proofs.Check.Moves

/-!
# The variables that a check creates

Variables are numbered in the order in which they are created, and no move of a check takes one
away (`Session.Move.varCount_le`).  So the variables that the parts of a check create add up
(`Checker.Creates.bind`), and a program that is accepted has got a variable for every function and
for every declaration without a written type (`Checker.program_creates`).
-/

namespace SimpleLang

/-- How many of some declarations have no written type. -/
def Decl.untyped (ds : List Decl) : Nat := ds.countP (·.type.isNone)

theorem Decl.untyped_append (ds es : List Decl) : untyped (ds ++ es) = untyped ds + untyped es :=
  List.countP_append

theorem TypeStore.varCount_compressWithin (root : NodeId) (n : Nat) (i : NodeId) (s : TypeStore) :
    (compressWithin root n i s).varCount = s.varCount := by
  induction n generalizing i s with
  | zero => rfl
  | succ n ih =>
    rw [compressWithin]
    split
    · rfl
    · split
      · rw [ih, varCount_set]
      · rfl

namespace Session

variable {s t : Session}

/-- No move takes a variable away. -/
theorem Move.varCount_le (h : Move s t) : s.types.varCount ≤ t.types.varCount := by
  cases h with
  | infer hstep =>
    cases hstep with
    | find a _ => exact (TypeStore.varCount_compressWithin _ _ _ _).ge
    | bind _ => exact le_rfl
  | fresh => exact Nat.le_succ _
  | note _ _ | function _ | declare _ _ _ | enter | exit _ _ | setReturnType _ => exact le_rfl

theorem Course.varCount_le (h : s.Course t) : s.types.varCount ≤ t.types.varCount := by
  obtain ⟨hmoves, -, -, -⟩ := h
  induction hmoves with
  | refl => exact le_rfl
  | tail _ hmove ih => exact ih.trans hmove.varCount_le

end Session

namespace Checker

variable {α β : Type} {s : Session} {n m : Nat} {post : α → Session → Prop}
  {r : EStateM.Result (Failure Diagnostic) Session α}

/-- A part of a check that came to this outcome from `s` has created at least `n` variables, if it
was accepted. -/
def Creates (s : Session) (n : Nat) (r : EStateM.Result (Failure Diagnostic) Session α) : Prop :=
  ∀ a t, r = .ok a t → s.types.varCount + n ≤ t.types.varCount

/-- A part that takes its course takes no variables away. -/
theorem Proceeds.creates (h : Proceeds s post r) : Creates s 0 r := by
  rintro a t rfl
  cases h with
  | accepted hst _ => exact hst.varCount_le

namespace Creates

theorem pure (a : α) : Creates s 0 ((Pure.pure a : Checker α) s) := by
  intro b t h
  cases h
  exact le_rfl

/-- The variables of one part after another add up. -/
theorem bind {x : Checker α} {f : α → Checker β} (hx : Proceeds s post (x s))
    (hn : Creates s n (x s)) (hf : ∀ a t, s.Course t → post a t → Creates t m (f a t)) :
    Creates s (n + m) ((x >>= f) s) := by
  intro b u h
  obtain ⟨a, t, hxs, hft⟩ := bind_eq_ok_iff.1 h
  have hfirst := hn a t hxs
  rw [hxs] at hx
  cases hx with
  | accepted hst hp =>
    have hsecond := hf a t hst hp b u hft
    omega

/-- One part after another, where the first need not create any. -/
theorem after {x : Checker α} {f : α → Checker β} (hx : Proceeds s post (x s))
    (hf : ∀ a t, s.Course t → post a t → Creates t m (f a t)) : Creates s m ((x >>= f) s) :=
  Nat.zero_add m ▸ bind hx hx.creates hf

/-- What is done in any case only matters if it creates variables itself. -/
theorem andThenAlways {work : Checker α} {after : Checker Unit} (hw : Creates s n (work s))
    (hafter : ∀ u, Creates u 0 (after u)) : Creates s n (Checker.andThenAlways work after s) := by
  intro a t h
  rw [Checker.andThenAlways] at h
  split at h
  · rename_i u hwork
    obtain ⟨_, v, hv, hpure⟩ := bind_eq_ok_iff.1 h
    cases hpure
    exact (hw _ u hwork).trans (hafter u _ _ hv)
  · obtain ⟨_, _, -, hthrow⟩ := bind_eq_ok_iff.1 h
    cases hthrow
  · cases h

/-- Work in a scope of its own. -/
theorem withScope (hs : s.WellFormed) {work : Checker α}
    (hw : ∀ t, t.WellFormed → s.types.size ≤ t.types.size → Creates t n (work t)) :
    Creates s n (Checker.withScope work s) := by
  rw [Checker.withScope, bind_of_ok (enterScope_eq s)]
  have hwork := hw _ (hs.open (.scopeEntered s.scopes.enter.depth)) le_rfl
  refine andThenAlways hwork fun u _ v hexit => ?_
  cases hu : u.scopes.exit? with
  | none =>
    rw [exitScope, bind_of_ok (get_eq u), hu] at hexit
    cases hexit
  | some S =>
    rw [exitScope_of_exit hu] at hexit
    cases hexit
    exact le_rfl

end Creates

/-! ### Declarations and statements -/

theorem declared_creates (type : Option BaseType) :
    Creates s (if type.isNone then 1 else 0) (onTypes (·.declared type) s) := by
  intro i t h
  cases type with
  | none =>
    cases h
    exact le_rfl
  | some b =>
    cases h
    exact le_rfl

theorem declaration_creates (hs : s.WellFormed) (d : Decl) :
    Creates s (Decl.untyped [d]) (declaration d s) := by
  rw [Decl.untyped, List.countP_singleton]
  refine .bind (m := 0) (declared_proceeds hs d.type) (declared_creates d.type)
    fun i t hst hi => ?_
  exact .after (declare_proceeds hst.wellFormed d.name hi) fun _ _ _ _ => .pure i

theorem declarations_creates : ∀ (ds : List Decl) {s : Session}, s.WellFormed →
    Creates s (Decl.untyped ds) (declarations ds s) := by
  intro ds
  induction ds with
  | nil => exact fun hs => (declarations_proceeds [] hs).creates
  | cons d ds ih =>
    intro s hs
    rw [← List.singleton_append, Decl.untyped_append]
    exact .bind (declaration_proceeds hs d) (declaration_creates hs d)
      fun _ t hst _ => ih hst.wellFormed

mutual

/-- **Checking a statement** creates a variable for each declaration in it without a written
type. -/
theorem stmt_creates : ∀ (st : Stmt) {s : Session}, s.WellFormed →
    Creates s (Decl.untyped st.declarations) (stmt st s)
  | .decl _ d, s, hs => by
    rw [stmt]
    exact .bind (m := 0) (declaration_proceeds hs d) (declaration_creates hs d)
      fun _ _ _ _ => .pure ()
  | .block _ ds ss, s, hs => by
    rw [stmt, Stmt.declarations, Decl.untyped_append]
    refine .withScope hs fun t ht _ => ?_
    exact .bind (declarations_proceeds ds ht) (declarations_creates ds ht)
      fun _ u htu _ => stmts_creates ss htu.wellFormed
  | .assign span target value, s, hs => (stmt_proceeds (.assign span target value) hs).creates
  | .ifThen _ c b, s, hs => by
    rw [stmt]
    exact .after (condition_proceeds hs c) fun _ t hst _ => stmt_creates b hst.wellFormed
  | .ifElse _ c b e, s, hs => by
    rw [stmt, Stmt.declarations, Decl.untyped_append]
    refine .after (condition_proceeds hs c) fun _ t hst _ => ?_
    exact .bind (stmt_proceeds b hst.wellFormed) (stmt_creates b hst.wellFormed)
      fun _ u htu _ => stmt_creates e htu.wellFormed
  | .while _ c b, s, hs => by
    rw [stmt]
    exact .after (condition_proceeds hs c) fun _ t hst _ => stmt_creates b hst.wellFormed
  | .return span value, s, hs => (stmt_proceeds (.return span value) hs).creates

theorem stmts_creates : ∀ (ss : List Stmt) {s : Session}, s.WellFormed →
    Creates s (Decl.untyped (Stmt.declarationsAll ss)) (stmts ss s)
  | [], s, hs => (stmts_proceeds [] hs).creates
  | st :: ss, s, hs => by
    rw [stmts, Stmt.declarationsAll, Decl.untyped_append]
    exact .bind (stmt_proceeds st hs) (stmt_creates st hs)
      fun _ t hst _ => stmts_creates ss hst.wellFormed

end

/-! ### Functions and programs -/

theorem parameterTypes_creates : ∀ (ps : List Decl) {s : Session}, s.WellFormed →
    Creates s (Decl.untyped ps) (parameterTypes ps s) := by
  intro ps
  induction ps with
  | nil => exact fun hs => (parameterTypes_proceeds [] hs).creates
  | cons d ps ih =>
    intro s hs
    rw [← List.singleton_append, Decl.untyped_append, Decl.untyped, List.countP_singleton]
    refine .bind (declared_proceeds hs d.type) (declared_creates d.type) fun i t hst _ => ?_
    exact .bind (m := 0) (parameterTypes_proceeds ps hst.wellFormed) (ih hst.wellFormed)
      fun types _ _ _ => .pure (i :: types)

/-- A function gets a variable for its result besides those of its parameters. -/
theorem signature_creates (hs : s.WellFormed) (f : FuncDef) :
    Creates s (Decl.untyped f.params + 1) (signature f s) := by
  rw [signature]
  refine .bind (parameterTypes_proceeds f.params hs) (parameterTypes_creates f.params hs)
    fun params t hst hparams => ?_
  refine .bind (m := 0) (fresh_proceeds hst.wellFormed) (declared_creates none)
    fun result u htu hresult => ?_
  have hlt : ∀ j ∈ result :: params, j < u.types.size :=
    List.forall_mem_cons.2 ⟨hresult, fun j hj => htu.lt (hparams j hj)⟩
  refine .after (functionType_proceeds htu.wellFormed hlt) fun type v huv htype => ?_
  refine .after (declare_proceeds huv.wellFormed f.name htype) fun _ w hvw _ => ?_
  refine .after (display_proceeds hvw.wellFormed type) fun _ x hwx _ => ?_
  exact .after (note_proceeds hwx.wellFormed rfl) fun _ _ _ _ => .pure type

theorem signatures_creates : ∀ (fs : List FuncDef) {s : Session}, s.WellFormed →
    Creates s (fs.length + Decl.untyped (fs.flatMap (·.params))) (signatures fs s) := by
  intro fs
  induction fs with
  | nil => exact fun hs => (signatures_proceeds [] hs).creates
  | cons f fs ih =>
    intro s hs
    have hcount : (f :: fs).length + Decl.untyped ((f :: fs).flatMap (·.params)) =
        (Decl.untyped f.params + 1) + (fs.length + Decl.untyped (fs.flatMap (·.params))) := by
      rw [List.flatMap_cons, Decl.untyped_append, List.length_cons]
      omega
    rw [hcount]
    exact .bind (signature_proceeds hs f) (signature_creates hs f)
      fun _ t hst _ => ih hst.wellFormed

theorem body_creates (hs : s.WellFormed) (f : FuncDef) {result : NodeId} {params : List NodeId}
    (hlt : ∀ j ∈ result :: params, j < s.types.size) :
    Creates s (Decl.untyped f.body.declarations) (body f result params s) := by
  refine .after (note_proceeds hs rfl) fun _ t hst _ => ?_
  refine .after (setReturnType_proceeds hst.wellFormed ?_) fun _ u htu _ => ?_
  · rintro _ ⟨⟩
    exact hst.lt (hlt result List.mem_cons_self)
  · refine .andThenAlways (.withScope htu.wellFormed fun v hv huv => ?_) fun v _ w h => ?_
    · have hparams : ∀ i ∈ params, i < v.types.size := fun i hi =>
        (htu.lt (hst.lt (hlt i (List.mem_cons_of_mem _ hi)))).trans_le huv
      exact .after (parameters_proceeds f.params params hv hparams)
        fun _ w hvw _ => stmt_creates f.body hvw.wellFormed
    · rw [setReturnType_eq] at h
      cases h
      exact le_rfl

theorem function_creates (hs : s.WellFormed) (f : FuncDef) :
    Creates s (Decl.untyped f.body.declarations) (function f s) := by
  rw [function]
  refine .after (lookup_proceeds hs f.name) fun type t hst htype => ?_
  refine .after (representative_proceeds hst.wellFormed htype) ?_
  rintro ⟨root, node⟩ u htu ⟨hnode, -⟩
  -- only a function type of the right arity gets as far as the body
  have hrejected : ∀ {n : Nat} (problem : String → Problem), Creates u n
      ((do reject (problem (← display root)) f.span.start : Checker Unit) u) := by
    intro n problem a v h
    cases h
  cases node with
  | constant b => exact hrejected _
  | var id b => exact hrejected _
  | function result params =>
    dsimp only
    split
    · exact body_creates htu.wellFormed f
        fun j hj => htu.wellFormed.types.lt_of_mem_links hnode hj
    · intro a v h
      cases h

theorem functions_creates : ∀ (fs : List FuncDef) {s : Session}, s.WellFormed →
    Creates s (Decl.untyped (fs.flatMap (·.body.declarations))) (functions fs s) := by
  intro fs
  induction fs with
  | nil => exact fun hs => (functions_proceeds [] hs).creates
  | cons f fs ih =>
    intro s hs
    rw [List.flatMap_cons, Decl.untyped_append]
    exact .bind (function_proceeds hs f) (function_creates hs f)
      fun _ t hst _ => ih hst.wellFormed

theorem items_creates (hs : s.WellFormed) (p : Program) :
    Creates s (p.functions.length + Decl.untyped p.declarations) (items p s) := by
  have hfunctions : Decl.untyped (p.functions.flatMap FuncDef.declarations) =
      Decl.untyped (p.functions.flatMap (·.params)) +
        Decl.untyped (p.functions.flatMap (·.body.declarations)) := by
    simp only [Decl.untyped, List.countP_flatMap, FuncDef.declarations, Function.comp_def,
      List.countP_append, List.sum_map_add]
  have hcount : p.functions.length + Decl.untyped p.declarations =
      (p.functions.length + Decl.untyped (p.functions.flatMap (·.params))) +
        (Decl.untyped (p.functions.flatMap (·.body.declarations)) +
          (Decl.untyped p.globals + Decl.untyped (Stmt.declarationsAll p.main))) := by
    rw [Program.declarations, Decl.untyped_append, Decl.untyped_append, hfunctions]
    omega
  rw [items, hcount]
  refine .after (note_proceeds hs rfl) fun _ t hst _ => ?_
  refine .bind (signatures_proceeds p.functions hst.wellFormed)
    (signatures_creates p.functions hst.wellFormed) fun _ u htu _ => ?_
  refine .bind (functions_proceeds p.functions htu.wellFormed)
    (functions_creates p.functions htu.wellFormed) fun _ v huv _ => ?_
  refine .after (note_proceeds huv.wellFormed rfl) fun _ w hvw _ => ?_
  refine .after (setReturnType_proceeds hvw.wellFormed (by simp)) fun _ x hwx _ => ?_
  exact .bind (declarations_proceeds p.globals hwx.wellFormed)
    (declarations_creates p.globals hwx.wellFormed) fun _ y hxy _ =>
      stmts_creates p.main hxy.wellFormed

/-- **Checking a program** creates a variable for each function and for each declaration without a
written type. -/
theorem program_creates (hs : s.WellFormed) (p : Program) :
    Creates s (p.functions.length + Decl.untyped p.declarations) (program p s) := by
  intro a t h
  rw [program] at h
  split at h
  · rename_i u hitems
    cases h
    exact items_creates hs p _ u hitems
  · cases h
  · cases h

end Checker

end SimpleLang
