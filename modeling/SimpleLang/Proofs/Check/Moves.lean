import SimpleLang.Proofs.Check.Correspondence
import SimpleLang.Proofs.Types.Total

/-!
# The moves that checks are made of

Whatever a check does to its session, it does by elementary moves (`Session.Move`): it logs
something, asks for a representative or makes a binding, adds a type, declares a name, opens or
closes a scope, or sets the return type.  So what holds of a session at the start and is kept by
every move holds wherever a check ends, also where it is rejected half way.

A part of a check may move as it likes between, but it closes the scopes that it opens
(`Session.Course`).  The walk below shows this of every part, and that none breaks a contract
(`Checker.Proceeds`).
-/

namespace SimpleLang

/-- Events that tell neither of a binding nor of a scope. -/
def Event.isPlain : Event → Bool
  | .bound _ _ | .unified _ _ | .scopeEntered _ | .scopeExited _ => false
  | _ => true

namespace Scopes

variable {α : Type} {S S' : Scopes α}

theorem stack_of_exit? (h : S.exit? = some S') : ∃ scope, S.stack = scope :: S'.stack := by
  rw [exit?] at h
  split at h
  · cases h
  · rename_i scope outer hstack
    cases h
    exact ⟨scope, hstack⟩

/-- Where a scope is open inside of another, it can be closed. -/
theorem exists_exit? (h : 1 < S.depth) :
    ∃ S', S.exit? = some S' ∧ S'.stack ≠ [] ∧ S'.depth + 1 = S.depth := by
  obtain ⟨_ | ⟨scope, outer⟩⟩ := S
  · simp [depth] at h
  · refine ⟨⟨outer⟩, rfl, ?_, rfl⟩
    rintro rfl
    simp [depth] at h

theorem depth_pos (h : S.stack ≠ []) : 0 < S.depth := List.length_pos_of_ne_nil h

end Scopes

namespace Session

open TypeStore

variable {s t u : Session}

theorem WellFormed.close (hs : s.WellFormed) {S : Scopes NodeId} (h : s.scopes.exit? = some S)
    (hopen : S.stack ≠ []) : ({ s with scopes := S } : Session).WellFormed where
  types := hs.types
  constants := hs.constants
  scopes := by
    obtain ⟨scope, hstack⟩ := Scopes.stack_of_exit? h
    intro scope' hscope' d hd
    exact hs.scopes scope' (by rw [hstack]; exact List.mem_cons_of_mem _ hscope') d hd
  opened := hopen
  returnType := hs.returnType

/-- A scope may be opened and something logged. -/
theorem WellFormed.open (hs : s.WellFormed) (e : Event) :
    ({ s with scopes := s.scopes.enter, log := s.log.push e } : Session).WellFormed :=
  hs.enter.of_types (i := { s.toInference with log := s.log.push e }) hs.types le_rfl

/-! ### Moves -/

/-- One thing that a check does to its session. -/
inductive Move : Session → Session → Prop
  /-- Something is logged that is neither a binding nor a scope. -/
  | note {s : Session} (e : Event) : e.isPlain = true → Move s { s with log := s.log.push e }
  /-- A step of unification. -/
  | infer {s : Session} {i : Inference} :
    Inference.Step s.toInference i → Move s { s with toInference := i }
  /-- A variable is added. -/
  | fresh {s : Session} : Move s { s with types := s.types.fresh.2 }
  /-- A function type is added. -/
  | function {s : Session} {result : NodeId} {params : List NodeId} :
    (∀ j ∈ result :: params, j < s.types.size) →
      Move s { s with types := (s.types.function result params).2 }
  /-- A name is declared in the innermost scope. -/
  | declare {s : Session} {scope : List (String × NodeId)}
    {outer : List (List (String × NodeId))} {i : NodeId} (x : String) :
    s.scopes.stack = scope :: outer → i < s.types.size →
      Move s { s with scopes := ⟨((x, i) :: scope) :: outer⟩ }
  /-- A scope is opened, and its depth logged. -/
  | enter {s : Session} :
    Move s { s with
      scopes := s.scopes.enter, log := s.log.push (.scopeEntered s.scopes.enter.depth) }
  /-- A scope inside of another is closed, and the depth of the other logged. -/
  | exit {s : Session} {S : Scopes NodeId} : s.scopes.exit? = some S → S.stack ≠ [] →
    Move s { s with scopes := S, log := s.log.push (.scopeExited S.depth) }
  /-- The return type is set. -/
  | setReturnType {s : Session} {ret : Option NodeId} : (∀ i, ret = some i → i < s.types.size) →
    Move s { s with returnType := ret }

/-- Every step of unification is a move. -/
theorem moves_of_steps {i : Inference} (h : Relation.ReflTransGen Inference.Step s.toInference i) :
    Relation.ReflTransGen Move s { s with toInference := i } := by
  induction h with
  | refl => exact .refl
  | @tail j k _ hstep ih => exact ih.tail (.infer (s := { s with toInference := j }) hstep)

/-- A check moves from `s` to `t`, and as many scopes are open there as before. -/
structure Course (s t : Session) : Prop where
  /-- The moves. -/
  moves : Relation.ReflTransGen Move s t
  /-- The session is well formed again. -/
  wellFormed : t.WellFormed
  /-- No node is lost. -/
  size_le : s.types.size ≤ t.types.size
  /-- Every scope that was opened has been closed. -/
  depth_eq : t.scopes.depth = s.scopes.depth

namespace Course

theorem refl (hs : s.WellFormed) : s.Course s := ⟨.refl, hs, le_rfl, rfl⟩

theorem trans (h : s.Course t) (h' : t.Course u) : s.Course u :=
  ⟨h.moves.trans h'.moves, h'.wellFormed, h.size_le.trans h'.size_le,
    h'.depth_eq.trans h.depth_eq⟩

theorem lt (h : s.Course t) {i : NodeId} (hi : i < s.types.size) : i < t.types.size :=
  hi.trans_le h.size_le

end Course

end Session

namespace Checker

open TypeStore

variable {α β : Type} {s t : Session} {position : Position} {post : α → Session → Prop}
  {post' : β → Session → Prop}

/-- The part of a check that came to this outcome has taken its course from `s`, and broke no
contract.  A result satisfies `post`. -/
inductive Proceeds (s : Session) (post : α → Session → Prop) :
    EStateM.Result (Failure Diagnostic) Session α → Prop
  /-- The part was accepted. -/
  | accepted {a : α} {t : Session} (course : s.Course t) (holds : post a t) :
    Proceeds s post (.ok a t)
  /-- The part was rejected. -/
  | rejected {d : Diagnostic} {t : Session} (course : s.Course t) :
    Proceeds s post (.error (.rejected d) t)

namespace Proceeds

theorem via {r : EStateM.Result (Failure Diagnostic) Session α} (hst : s.Course t)
    (h : Proceeds t post r) : Proceeds s post r := by
  cases h with
  | accepted htu hp => exact .accepted (hst.trans htu) hp
  | rejected htu => exact .rejected (hst.trans htu)

/-- One part after another. -/
theorem bind {x : Checker α} {f : α → Checker β} (hx : Proceeds s post (x s))
    (hf : ∀ a t, s.Course t → post a t → Proceeds t post' (f a t)) :
    Proceeds s post' ((x >>= f) s) := by
  generalize hr : x s = r at hx
  cases hx with
  | accepted hst hp =>
    rw [bind_of_ok hr]
    exact (hf _ _ hst hp).via hst
  | rejected hst =>
    rw [bind_of_error hr]
    exact .rejected hst

theorem pure {a : α} (hs : s.WellFormed) (ha : post a s) :
    Proceeds s post ((Pure.pure a : Checker α) s) :=
  .accepted (.refl hs) ha

theorem reject {problem : Problem} (hs : s.WellFormed) :
    Proceeds s post (Checker.reject problem position s) :=
  .rejected (.refl hs)

end Proceeds

/-! ### Moves of their own -/

theorem note_proceeds (hs : s.WellFormed) {e : Event} (he : e.isPlain = true) :
    Proceeds s (fun _ _ => True) (note e s) :=
  .accepted ⟨.single (.note e he),
    hs.of_types (i := { s.toInference with log := s.log.push e }) hs.types le_rfl, le_rfl, rfl⟩
    trivial

theorem fresh_proceeds (hs : s.WellFormed) :
    Proceeds s (fun i t => i < t.types.size) (onTypes (·.fresh) s) := by
  have hsize : s.types.fresh.2.size = s.types.size + 1 := size_push _ _ _
  refine .accepted (t := { s with types := s.types.fresh.2 })
    ⟨.single .fresh, ?_, by dsimp only; omega, rfl⟩ (by dsimp only; omega)
  exact hs.of_types (i := { s.toInference with types := s.types.fresh.2 })
    (wellFormed_fresh hs.types) (by dsimp only; omega)

theorem declared_proceeds (hs : s.WellFormed) (type : Option BaseType) :
    Proceeds s (fun i t => i < t.types.size) (onTypes (·.declared type) s) := by
  cases type with
  | none => exact fresh_proceeds hs
  | some b => exact .accepted (.refl hs) (hs.constants b)

theorem functionType_proceeds (hs : s.WellFormed) {result : NodeId} {params : List NodeId}
    (hlt : ∀ j ∈ result :: params, j < s.types.size) :
    Proceeds s (fun i t => i < t.types.size) (onTypes (·.function result params) s) := by
  have hsize : (s.types.function result params).2.size = s.types.size + 1 := size_push _ _ _
  refine .accepted (t := { s with types := (s.types.function result params).2 })
    ⟨.single (.function hlt), ?_, by dsimp only; omega, rfl⟩ (by dsimp only; omega)
  exact hs.of_types (i := { s.toInference with types := (s.types.function result params).2 })
    (wellFormed_function hs.types hlt) (by dsimp only; omega)

/-- Unification as part of a check. -/
theorem course_of_steps (hs : s.WellFormed) {i : Inference}
    (h : Relation.ReflTransGen Inference.Step s.toInference i) :
    s.Course { s with toInference := i } := by
  have href := Inference.refines_of_steps hs.types h
  have hsize : s.types.size ≤ i.types.size := href.size_eq.ge
  exact ⟨Session.moves_of_steps h, hs.of_types href.wellFormed hsize, hsize, rfl⟩

theorem unify_proceeds (hs : s.WellFormed) {a b : NodeId} (ha : a < s.types.size)
    (hb : b < s.types.size) : Proceeds s (fun _ _ => True) (unify a b position s) := by
  obtain ⟨i, hsteps, hok | ⟨p, herror⟩⟩ := Unifier.unify_ends (i := s.toInference) hs.types ha hb
  · rw [unify, infer_of_ok hok]
    exact .accepted (course_of_steps hs hsteps) trivial
  · rw [unify, infer, herror]
    exact .rejected (course_of_steps hs hsteps)

theorem representative_proceeds (hs : s.WellFormed) {i : NodeId} (hi : i < s.types.size) :
    Proceeds s (fun p t => t.types.node? p.1 = some p.2 ∧ t.types.Root p.1)
      (representative i position s) := by
  obtain ⟨n, hn, hroot⟩ := exists_representative hs.types hi
  rw [representative_of_node hn]
  exact .accepted (course_of_steps hs (.single (.find i hi))) ⟨hn, hroot⟩

theorem display_proceeds (hs : s.WellFormed) (i : NodeId) :
    Proceeds s (fun _ _ => True) (display i s) :=
  .accepted (.refl hs) trivial

theorem lookup_proceeds (hs : s.WellFormed) (x : String) :
    Proceeds s (fun i t => i < t.types.size) (lookup x position s) := by
  cases hl : s.scopes.lookup? x with
  | none =>
    rw [lookup_of_none hl]
    exact .rejected (.refl hs)
  | some i =>
    rw [lookup_of_some hl]
    exact .accepted (.refl hs) (hs.lookup_lt hl)

theorem declare_proceeds (hs : s.WellFormed) (x : String) {i : NodeId} (hi : i < s.types.size) :
    Proceeds s (fun _ _ => True) (declare x i position s) := by
  obtain ⟨scope, outer, hstack⟩ := List.exists_cons_of_ne_nil hs.opened
  cases hl : scope.lookup x with
  | some j =>
    rw [declare_of_duplicate hstack hl]
    exact .rejected (.refl hs)
  | none =>
    rw [declare_of_new hstack hl]
    refine .accepted ⟨.single (.declare x hstack hi), hs.declare hstack hi x, le_rfl, ?_⟩ trivial
    simp only [Scopes.depth, hstack, List.length_cons]

theorem setReturnType_proceeds (hs : s.WellFormed) {ret : Option NodeId}
    (hret : ∀ i, ret = some i → i < s.types.size) :
    Proceeds s (fun _ _ => True) (setReturnType ret s) :=
  .accepted ⟨.single (.setReturnType hret), hs.setReturnType hret, le_rfl, rfl⟩ trivial

/-! ### What is done in any case -/

/-- Work that is followed by something in any case, which may end a course that the work left
open. -/
theorem andThenAlways_proceeds {work : Checker α} {after : Checker Unit}
    (hw : Proceeds t (fun _ _ => True) (work t))
    (hafter : ∀ u, t.Course u → ∃ v, after u = .ok () v ∧ s.Course v) :
    Proceeds s (fun _ _ => True) (andThenAlways work after t) := by
  generalize hr : work t = r at hw
  cases hw with
  | accepted htu _ =>
    obtain ⟨v, hv, hsv⟩ := hafter _ htu
    rw [andThenAlways_of_ok hr hv]
    exact .accepted hsv trivial
  | rejected htu =>
    obtain ⟨v, hv, hsv⟩ := hafter _ htu
    rw [andThenAlways_of_rejected hr hv]
    exact .rejected hsv

theorem withScope_proceeds (hs : s.WellFormed) {work : Checker α}
    (hw : ∀ t, t.WellFormed → s.types.size ≤ t.types.size →
      Proceeds t (fun _ _ => True) (work t)) :
    Proceeds s (fun _ _ => True) (withScope work s) := by
  rw [withScope, bind_of_ok (enterScope_eq s)]
  refine andThenAlways_proceeds (hw _ (hs.open _) le_rfl) fun u hu => ?_
  -- the work has closed what it opened, so it is the scope opened here that is closed now
  have hdepth : u.scopes.depth = s.scopes.depth + 1 := hu.depth_eq
  have hpos := Scopes.depth_pos hs.opened
  obtain ⟨S, hexit, hopen, hS⟩ := Scopes.exists_exit? (S := u.scopes) (by omega)
  refine ⟨_, exitScope_of_exit hexit, (hu.moves.head .enter).tail (.exit hexit hopen), ?_,
    hu.size_le, by dsimp only; omega⟩
  exact (hu.wellFormed.close hexit hopen).of_types
    (i := { u.toInference with log := u.log.push _ }) hu.wellFormed.types le_rfl

/-! ### Expressions -/

theorem operation_proceeds (hs : s.WellFormed) (op : BinaryOp) {left right : NodeId}
    {p q : Position} (hl : left < s.types.size) (hr : right < s.types.size) :
    Proceeds s (fun i t => i < t.types.size) (operation op left right p q s) := by
  rw [operation]
  cases operandType op with
  | none =>
    refine (unify_proceeds hs hl hr).bind fun _ t hst _ => ?_
    exact .pure hst.wellFormed (hst.wellFormed.constants _)
  | some b =>
    refine (unify_proceeds hs (hs.constants b) hl).bind fun _ t hst _ => ?_
    refine (unify_proceeds hst.wellFormed (hst.wellFormed.constants b) (hst.lt hr)).bind
      fun _ u htu _ => ?_
    exact .pure htu.wellFormed (htu.wellFormed.constants _)

mutual

/-- **Checking an expression** takes its course and gives a node of the store. -/
theorem expr_proceeds : ∀ (e : Expr) {s : Session}, s.WellFormed →
    Proceeds s (fun i t => i < t.types.size) (expr e s)
  | .name span x, s, hs => by
    rw [expr]
    exact lookup_proceeds hs x
  | .int _ _, s, hs => by
    rw [expr]
    exact .pure hs (hs.constants _)
  | .bool _ _, s, hs => by
    rw [expr]
    exact .pure hs (hs.constants _)
  | .binary _ left op right, s, hs => by
    rw [expr]
    refine (expr_proceeds left hs).bind fun l t hst hl => ?_
    refine (expr_proceeds right hst.wellFormed).bind fun r u htu hr => ?_
    exact operation_proceeds htu.wellFormed op (htu.lt hl) hr
  | .call span callee arguments, s, hs => by
    rw [expr]
    refine (lookup_proceeds hs callee).bind fun type t hst htype => ?_
    refine (representative_proceeds hst.wellFormed htype).bind ?_
    rintro ⟨root, node⟩ u htu ⟨hnode, hroot⟩
    rcases node with b | ⟨id, _ | j⟩ | ⟨result, params⟩
    · refine (display_proceeds htu.wellFormed root).bind fun _ v huv _ => ?_
      exact .reject huv.wellFormed
    · refine (inferArguments_proceeds arguments htu.wellFormed).bind fun types v huv htypes => ?_
      refine (fresh_proceeds huv.wellFormed).bind fun result w hvw hresult => ?_
      have hlt : ∀ j ∈ result :: types, j < w.types.size :=
        List.forall_mem_cons.2 ⟨hresult, fun j hj => hvw.lt (htypes j hj)⟩
      refine (functionType_proceeds hvw.wellFormed hlt).bind fun inferred x hwx hinferred => ?_
      have htype' := hwx.lt (hvw.lt (huv.lt (htu.lt htype)))
      refine (unify_proceeds hwx.wellFormed htype' hinferred).bind fun _ y hxy _ => ?_
      exact .pure hxy.wellFormed (hxy.lt (hwx.lt hresult))
    · -- a representative is not bound
      exact absurd hnode (hroot id j)
    · have hlt : ∀ j ∈ result :: params, j < u.types.size :=
        fun j hj => htu.wellFormed.types.lt_of_mem_links hnode hj
      dsimp only
      split
      · refine (checkArguments_proceeds arguments htu.wellFormed
          fun j hj => hlt j (List.mem_cons_of_mem _ hj)).bind fun _ v huv _ => ?_
        exact .pure huv.wellFormed (huv.lt (hlt result List.mem_cons_self))
      · exact .reject htu.wellFormed

theorem checkArguments_proceeds : ∀ (arguments : List Expr) {params : List NodeId}
    {s : Session}, s.WellFormed → (∀ j ∈ params, j < s.types.size) →
    Proceeds s (fun _ _ => True) (checkArguments params arguments s)
  | [], params, s, hs, _ => by
    cases params <;> simp only [checkArguments] <;> exact .pure hs trivial
  | e :: es, [], s, hs, _ => by
    simp only [checkArguments]
    exact .pure hs trivial
  | e :: es, p :: ps, s, hs, hlt => by
    rw [checkArguments]
    refine (expr_proceeds e hs).bind fun i t hst hi => ?_
    refine (unify_proceeds hst.wellFormed (hst.lt (hlt p List.mem_cons_self)) hi).bind
      fun _ u htu _ => ?_
    exact checkArguments_proceeds es htu.wellFormed
      fun j hj => htu.lt (hst.lt (hlt j (List.mem_cons_of_mem _ hj)))

theorem inferArguments_proceeds : ∀ (arguments : List Expr) {s : Session}, s.WellFormed →
    Proceeds s (fun is t => ∀ i ∈ is, i < t.types.size) (inferArguments arguments s)
  | [], s, hs => by
    rw [inferArguments]
    exact .pure hs (by simp)
  | e :: es, s, hs => by
    rw [inferArguments]
    refine (expr_proceeds e hs).bind fun i t hst hi => ?_
    refine (inferArguments_proceeds es hst.wellFormed).bind fun is u htu his => ?_
    exact .pure htu.wellFormed (List.forall_mem_cons.2 ⟨htu.lt hi, his⟩)

end

/-! ### Declarations and statements -/

theorem declaration_proceeds (hs : s.WellFormed) (d : Decl) :
    Proceeds s (fun _ _ => True) (declaration d s) := by
  refine (declared_proceeds hs d.type).bind fun i t hst hi => ?_
  refine (declare_proceeds hst.wellFormed d.name hi).bind fun _ u htu _ => ?_
  exact .pure htu.wellFormed trivial

theorem declarations_proceeds : ∀ (ds : List Decl) {s : Session}, s.WellFormed →
    Proceeds s (fun _ _ => True) (declarations ds s) := by
  intro ds
  induction ds with
  | nil => exact fun hs => .pure hs trivial
  | cons d ds ih =>
    intro s hs
    exact (declaration_proceeds hs d).bind fun _ t hst _ => ih hst.wellFormed

theorem condition_proceeds (hs : s.WellFormed) (c : Expr) :
    Proceeds s (fun _ _ => True) (condition c s) := by
  refine (expr_proceeds c hs).bind fun i t hst hi => ?_
  exact unify_proceeds hst.wellFormed (hst.wellFormed.constants _) hi

/-- A value of a type that is known. -/
theorem value_proceeds (hs : s.WellFormed) {a : NodeId} (ha : a < s.types.size) (value : Expr) :
    Proceeds s (fun _ _ => True)
      ((do
        let type ← expr value
        unify a type position : Checker Unit) s) := by
  refine (expr_proceeds value hs).bind fun i t hst hi => ?_
  exact unify_proceeds hst.wellFormed (hst.lt ha) hi

mutual

/-- **Checking a statement** takes its course. -/
theorem stmt_proceeds : ∀ (st : Stmt) {s : Session}, s.WellFormed →
    Proceeds s (fun _ _ => True) (stmt st s)
  | .decl _ d, s, hs => by
    rw [stmt]
    exact (declaration_proceeds hs d).bind fun _ t hst _ => .pure hst.wellFormed trivial
  | .block _ ds ss, s, hs => by
    rw [stmt]
    refine withScope_proceeds hs fun t ht _ => ?_
    exact (declarations_proceeds ds ht).bind fun _ u htu _ => stmts_proceeds ss htu.wellFormed
  | .assign span target value, s, hs => by
    rw [stmt]
    refine (lookup_proceeds hs target).bind fun a t hst ha => ?_
    exact value_proceeds hst.wellFormed ha value
  | .ifThen _ c b, s, hs => by
    rw [stmt]
    exact (condition_proceeds hs c).bind fun _ t hst _ => stmt_proceeds b hst.wellFormed
  | .ifElse _ c b e, s, hs => by
    rw [stmt]
    refine (condition_proceeds hs c).bind fun _ t hst _ => ?_
    exact (stmt_proceeds b hst.wellFormed).bind fun _ u htu _ => stmt_proceeds e htu.wellFormed
  | .while _ c b, s, hs => by
    rw [stmt]
    exact (condition_proceeds hs c).bind fun _ t hst _ => stmt_proceeds b hst.wellFormed
  | .return span value, s, hs => by
    rw [stmt, bind_of_ok (get_eq s)]
    cases hret : s.returnType with
    | none => exact .reject hs
    | some a => exact value_proceeds hs (hs.returnType a hret) value

theorem stmts_proceeds : ∀ (ss : List Stmt) {s : Session}, s.WellFormed →
    Proceeds s (fun _ _ => True) (stmts ss s)
  | [], s, hs => by
    rw [stmts]
    exact .pure hs trivial
  | st :: ss, s, hs => by
    rw [stmts]
    exact (stmt_proceeds st hs).bind fun _ t hst _ => stmts_proceeds ss hst.wellFormed

end

/-! ### Functions and programs -/

theorem parameterTypes_proceeds : ∀ (ps : List Decl) {s : Session}, s.WellFormed →
    Proceeds s (fun is t => ∀ i ∈ is, i < t.types.size) (parameterTypes ps s) := by
  intro ps
  induction ps with
  | nil => exact fun hs => .pure hs (by simp)
  | cons p ps ih =>
    intro s hs
    refine (declared_proceeds hs p.type).bind fun i t hst hi => ?_
    refine (ih hst.wellFormed).bind fun is u htu his => ?_
    exact .pure htu.wellFormed (List.forall_mem_cons.2 ⟨htu.lt hi, his⟩)

theorem signature_proceeds (hs : s.WellFormed) (f : FuncDef) :
    Proceeds s (fun _ _ => True) (signature f s) := by
  rw [signature]
  refine (parameterTypes_proceeds f.params hs).bind fun params t hst hparams => ?_
  refine (fresh_proceeds hst.wellFormed).bind fun result u htu hresult => ?_
  have hlt : ∀ j ∈ result :: params, j < u.types.size :=
    List.forall_mem_cons.2 ⟨hresult, fun j hj => htu.lt (hparams j hj)⟩
  refine (functionType_proceeds htu.wellFormed hlt).bind fun type v huv htype => ?_
  refine (declare_proceeds huv.wellFormed f.name htype).bind fun _ w hvw _ => ?_
  refine (display_proceeds hvw.wellFormed type).bind fun _ x hwx _ => ?_
  exact (note_proceeds hwx.wellFormed rfl).bind fun _ y hxy _ => .pure hxy.wellFormed trivial

theorem signatures_proceeds : ∀ (fs : List FuncDef) {s : Session}, s.WellFormed →
    Proceeds s (fun _ _ => True) (signatures fs s) := by
  intro fs
  induction fs with
  | nil => exact fun hs => .pure hs trivial
  | cons f fs ih =>
    intro s hs
    exact (signature_proceeds hs f).bind fun _ t hst _ => ih hst.wellFormed

theorem parameters_proceeds : ∀ (ps : List Decl) (types : List NodeId) {s : Session},
    s.WellFormed → (∀ i ∈ types, i < s.types.size) →
    Proceeds s (fun _ _ => True) (parameters ps types s)
  | [], types, s, hs, _ => by
    cases types <;> exact .pure hs trivial
  | p :: ps, [], s, hs, _ => .pure hs trivial
  | p :: ps, i :: types, s, hs, hlt => by
    rw [parameters]
    refine (declare_proceeds hs p.name (hlt i List.mem_cons_self)).bind fun _ t hst _ => ?_
    exact parameters_proceeds ps types hst.wellFormed
      fun j hj => hst.lt (hlt j (List.mem_cons_of_mem _ hj))

/-- The body of a function, which is checked with a return type of its own. -/
theorem body_proceeds (hs : s.WellFormed) (f : FuncDef) {result : NodeId} {params : List NodeId}
    (hlt : ∀ j ∈ result :: params, j < s.types.size) :
    Proceeds s (fun _ _ => True) (body f result params s) := by
  refine (note_proceeds hs rfl).bind fun _ t hst _ => ?_
  refine (setReturnType_proceeds hst.wellFormed ?_).bind fun _ u htu _ => ?_
  · rintro _ ⟨⟩
    exact hst.lt (hlt result List.mem_cons_self)
  · refine andThenAlways_proceeds (withScope_proceeds htu.wellFormed fun v hv huv => ?_)
      fun v huv => ⟨_, setReturnType_eq none v, ?_⟩
    · have hparams : ∀ i ∈ params, i < v.types.size := fun i hi =>
        (htu.lt (hst.lt (hlt i (List.mem_cons_of_mem _ hi)))).trans_le huv
      exact (parameters_proceeds f.params params hv hparams).bind
        fun _ w hvw _ => stmt_proceeds f.body hvw.wellFormed
    · exact huv.trans ⟨.single (.setReturnType (by simp)),
        huv.wellFormed.setReturnType (by simp), le_rfl, rfl⟩

theorem function_proceeds (hs : s.WellFormed) (f : FuncDef) :
    Proceeds s (fun _ _ => True) (function f s) := by
  rw [function]
  refine (lookup_proceeds hs f.name).bind fun type t hst htype => ?_
  refine (representative_proceeds hst.wellFormed htype).bind ?_
  rintro ⟨root, node⟩ u htu ⟨hnode, -⟩
  have hnotCallable : Proceeds u (fun _ _ => True)
      ((do reject (.notCallable f.name (← display root)) f.span.start : Checker Unit) u) :=
    (display_proceeds htu.wellFormed root).bind fun _ v huv _ => .reject huv.wellFormed
  cases node with
  | constant b => exact hnotCallable
  | var id b => exact hnotCallable
  | function result params =>
    dsimp only
    split
    · exact body_proceeds htu.wellFormed f
        fun j hj => htu.wellFormed.types.lt_of_mem_links hnode hj
    · exact .reject htu.wellFormed

theorem functions_proceeds : ∀ (fs : List FuncDef) {s : Session}, s.WellFormed →
    Proceeds s (fun _ _ => True) (functions fs s) := by
  intro fs
  induction fs with
  | nil => exact fun hs => .pure hs trivial
  | cons f fs ih =>
    intro s hs
    exact (function_proceeds hs f).bind fun _ t hst _ => ih hst.wellFormed

theorem items_proceeds (hs : s.WellFormed) (p : Program) :
    Proceeds s (fun _ _ => True) (items p s) := by
  rw [items]
  refine (note_proceeds hs rfl).bind fun _ t hst _ => ?_
  refine (signatures_proceeds p.functions hst.wellFormed).bind fun _ u htu _ => ?_
  refine (functions_proceeds p.functions htu.wellFormed).bind fun _ v huv _ => ?_
  refine (note_proceeds huv.wellFormed rfl).bind fun _ w hvw _ => ?_
  refine (setReturnType_proceeds hvw.wellFormed (by simp)).bind fun _ x hwx _ => ?_
  refine (declarations_proceeds p.globals hwx.wellFormed).bind fun _ y hxy _ => ?_
  exact stmts_proceeds p.main hxy.wellFormed

/-- **Checking a program** takes its course, whether the program is accepted or rejected. -/
theorem program_proceeds (hs : s.WellFormed) (p : Program) :
    Proceeds s (fun _ _ => True) (program p s) := by
  have hitems := items_proceeds hs p
  unfold program
  generalize items p s = r at hitems
  cases hitems with
  | @accepted _ t hst _ => exact (note_proceeds hst.wellFormed rfl).via hst
  | @rejected d t hst =>
    refine Proceeds.via hst ((note_proceeds hst.wellFormed rfl).bind fun _ u htu _ => ?_)
    exact .rejected (.refl htu.wellFormed)

end Checker

end SimpleLang
