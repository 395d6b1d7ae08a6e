import SimpleLang.Proofs.Check.Globals
import SimpleLang.Proofs.Check.Inference
import SimpleLang.Proofs.Check.Refinement
import SimpleLang.Proofs.Parse.Declared

/-!
# Scopes are left as they were found

However a check ends, it closes the scopes that it has opened.  A statement keeps all scopes around
the innermost one and adds to that one, if anything, names of the declarations that stand in the
statement outside of any block (`Session.Scoped`).  A statement that was read has no such
declarations, so it leaves the scopes exactly as they were.  The body of a function is checked in a
scope of its own, and after it no return type is in force.

All this holds of acceptance and of rejection alike, at whatever depth the reason for a rejection is
found (`Session.WellFormed.scopes_restored`).
-/

namespace SimpleLang

/-- The innermost scope has got more declarations on top of the old ones, with different names that
it did not declare before. -/
theorem Scopes.Extends.exists_added {α : Type} {D : String → Prop} {S S' : Scopes α}
    {scope : List (String × α)} {outer : List (List (String × α))} (h : S.Extends D S')
    (hS : S.stack = scope :: outer) :
    ∃ added, S'.stack = (added ++ scope) :: outer ∧ (added.map Prod.fst).Nodup ∧
      ∀ d ∈ added, D d.1 ∧ scope.lookup d.1 = none := by
  induction h with
  | refl => exact ⟨[], hS, List.nodup_nil, by simp⟩
  | @declare scope' outer' x a _ hx hnone ih =>
    obtain ⟨added, heq, hnodup, hadded⟩ := ih
    obtain ⟨rfl, rfl⟩ := List.cons.inj heq
    obtain ⟨hnew, hold⟩ : added.lookup x = none ∧ scope.lookup x = none := by
      simpa [List.lookup_append] using hnone
    refine ⟨(x, a) :: added, rfl, List.nodup_cons.2 ⟨fun hmem => ?_, hnodup⟩,
      List.forall_mem_cons.2 ⟨⟨hx, hold⟩, hadded⟩⟩
    obtain ⟨d, hd, rfl⟩ := List.mem_map.1 hmem
    rw [lookup_of_mem hnodup hd] at hnew
    cases hnew

namespace Session

/-- What the check of a statement leaves of the scopes and of the return type. -/
structure Scoped (st : Stmt) (s s' : Session) : Prop where
  /-- As many scopes are open. -/
  depth : s'.scopes.depth = s.scopes.depth
  /-- The scopes around the innermost one are unchanged. -/
  outer : s'.scopes.stack.tail = s.scopes.stack.tail
  /-- The innermost scope has got names that stand declared in the statement outside of any block,
  each of them once and none that it declared before. -/
  innermost : ∃ added, s'.scopes.stack.head? = s.scopes.stack.head?.map (added ++ ·) ∧
    (added.map Prod.fst).Nodup ∧
    ∀ d ∈ added, d.1 ∈ st.declared ∧ s.scopes.here? d.1 = none
  /-- The return type is the same. -/
  returnType : s'.returnType = s.returnType

theorem Frame.scoped {st : Stmt} {s s' : Session} (hs : s.WellFormed)
    (h : s.Frame (· ∈ st.declared) s') : Scoped st s s' := by
  obtain ⟨scope, outer, hstack⟩ := List.exists_cons_of_ne_nil hs.opened
  obtain ⟨added, hstack', hnodup, hadded⟩ := h.scopes.exists_added hstack
  refine ⟨?_, h.scopes.tail_eq, ⟨added, ?_, hnodup, ?_⟩, h.returnType⟩
  · simp [Scopes.depth, hstack, hstack']
  · simp [hstack, hstack']
  · simpa [Scopes.here?, hstack] using hadded

/-- A statement that declares nothing around it changes no scope. -/
theorem Frame.scopes_eq {st : Stmt} {s s' : Session} (h : s.Frame (· ∈ st.declared) s')
    (hst : st.declared = []) : s'.scopes = s.scopes :=
  h.scopes.eq_of_forall_not (by simp [hst])

end Session

namespace Checker

variable {s : Session}

/-- A part of a check that corresponds to something ends, with success or without. -/
theorem Corresponds.exists_ends {x : Checker Unit} {R : Inference → Inference → Prop}
    {F : Session → Prop} {post : Unit → Session → Prop}
    {r : EStateM.Result (Failure Diagnostic) Session Unit} (h : Corresponds R F post (x s) r) :
    ∃ s', (x s = .ok () s' ∨ ∃ d, x s = .error (.rejected d) s') ∧ s'.WellFormed ∧ F s' := by
  rcases hr : x s with ⟨_, s'⟩ | ⟨e, s'⟩
  · rw [hr] at h
    exact ⟨s', .inl rfl, h.of_ok.1, h.of_ok.2.1⟩
  · rw [hr] at h
    obtain ⟨d, rfl, hwf, hF⟩ := h.of_error
    exact ⟨s', .inr ⟨d, rfl⟩, hwf, hF⟩

/-- A function whose name has a function type of so many parameters, perhaps through other types, is
checked against it. -/
theorem function_eq_body_of_resolve {f : FuncDef} {type result : NodeId} {params : List NodeId}
    (hs : s.WellFormed) (hname : s.scopes.lookup? f.name = some type)
    (hnode : s.types.node? (s.types.resolve type) = some (.function result params))
    (hlen : params.length = f.params.length) :
    function f s = body f result params { s with types := (s.types.find type).2 } := by
  have hfind := TypeStore.find_sameTypes hs.types type
  have hrep : representative type f.span.start s = .ok (_, .function result params) _ :=
    representative_of_node (hfind.toExtends.function hnode)
  rw [function, bind_of_ok (lookup_of_some hname), bind_of_ok hrep]
  exact congrFun (if_pos hlen) _

/-- Once the type of a function is known to fit, its body is checked and leaves the scopes as they
were, and no return type. -/
theorem function_restores {f : FuncDef} {type result : NodeId} {params : List NodeId}
    (hs : s.WellFormed) (hname : s.scopes.lookup? f.name = some type)
    (hnode : s.types.node? (s.types.resolve type) = some (.function result params))
    (hlen : params.length = f.params.length) :
    ∃ s', (Operation.function f).Ends s s' ∧ s'.scopes = s.scopes ∧ s'.returnType = none := by
  have hfind := TypeStore.find_sameTypes hs.types type
  have hwf : ({ s with types := (s.types.find type).2 } : Session).WellFormed :=
    hs.of_types (i := ⟨(s.types.find type).2, s.log⟩) hfind.wellFormed
      (Nat.le_of_eq hfind.size_eq.symm)
  have hlt : ∀ j ∈ result :: params, j < (s.types.find type).2.size := fun j hj =>
    hfind.wellFormed.lt_of_mem_links (hfind.toExtends.function hnode) hj
  obtain ⟨s', hends, -, hframe, hret⟩ :=
    (body_corresponds Access.standard_faithful.simulates hwf.related f hlt).exists_ends
  refine ⟨s', ?_, hframe.scopes, hret⟩
  simp only [Operation.Ends, Operation.run]
  rw [function_eq_body_of_resolve hs hname hnode hlen]
  exact hends

end Checker

/-- **Scopes are left as they were found.**  In a well-formed session every statement is accepted or
rejected with all outer scopes and the return type unchanged and at most its own declarations added
to the innermost scope; a statement that was read leaves all scopes unchanged.  And when the type of
a function's name fits its definition, checking the function leaves the scopes as they were and no
return type, whether or not its parameters and its body are accepted. -/
theorem Session.WellFormed.scopes_restored {s : Session} (hs : s.WellFormed) :
    (∀ st : Stmt, ∃ s', (Operation.stmt st).Ends s s' ∧ s.Scoped st s' ∧
      (st.Read → s'.scopes = s.scopes)) ∧
    ∀ (f : FuncDef) (type result : NodeId) (params : List NodeId),
      s.scopes.lookup? f.name = some type →
      s.types.node? (s.types.resolve type) = some (.function result params) →
      params.length = f.params.length →
      ∃ s', (Operation.function f).Ends s s' ∧ s'.scopes = s.scopes ∧ s'.returnType = none := by
  constructor
  · intro st
    obtain ⟨s', hends, -, hframe⟩ := (Checker.stmt_corresponds
      Access.standard_faithful.simulates st (D := (· ∈ st.declared)) hs.related
      fun _ hx => hx).exists_ends
    exact ⟨s', hends, hframe.scoped hs, fun hread => hframe.scopes_eq hread.declared_eq⟩
  · intro f type result params hname hnode hlen
    exact Checker.function_restores hs hname hnode hlen

/-- The tokens of `{ var y; { y := z; } }`. -/
def innerUndeclared : List Token :=
  [(.openCurly, r"{"), (.varKw, "var"), (.identifier, "y"), (.semicolon, ";"),
    (.openCurly, r"{"), (.identifier, "y"), (.assignment, ":="), (.identifier, "z"),
    (.semicolon, ";"), (.closeCurly, r"}"), (.closeCurly, r"}")].map
      fun (kind, text) => ⟨kind, text, .nowhere⟩

/-- Where a function `f` of type `(int) -> t0` is declared, its body is rejected inside of two
blocks, and so is the body alone as a statement; no scope is left open and nothing is left
declared. -/
theorem Session.WellFormed.scopes_restored_innerUndeclared :
    let s : Session :=
      ⟨⟨(TypeStore.initial.fresh.2.function 2 [0]).2, #[]⟩, ⟨[[("f", 3)]]⟩, some 2⟩
    s.WellFormed ∧ ∃ st c, Parser.stmt .standard (.start "" innerUndeclared) = .ok st c ∧
      (∃ d s', Checker.stmt st s = .error (.rejected d) s' ∧ s'.scopes = s.scopes) ∧
      ∃ d s', Checker.function ⟨"f", [⟨"x", some .int, .nowhere⟩], st, .nowhere⟩ s =
        .error (.rejected d) s' ∧ s'.scopes = s.scopes ∧ s'.returnType = none := by
  intro s
  have hs : s.WellFormed :=
    ⟨TypeStore.wellFormed_function (TypeStore.wellFormed_fresh TypeStore.wellFormed_initial)
      (by decide), fun t => by cases t <;> decide, by decide, by decide, by decide⟩
  have hrun : (match Parser.stmt .standard (.start "" innerUndeclared) with
      | .ok st _ =>
        match Checker.stmt st s,
          Checker.function ⟨"f", [⟨"x", some .int, .nowhere⟩], st, .nowhere⟩ s with
        | .error _ _, .error _ _ => true
        | _, _ => false
      | .error _ _ => false) = true := by decide +kernel
  rcases hst : Parser.stmt .standard (.start "" innerUndeclared) with ⟨st, c⟩ | ⟨d, c⟩
  · rw [hst] at hrun
    dsimp only at hrun
    split at hrun
    · rename_i hstmt hfunction
      refine ⟨hs, st, c, rfl, ?_, ?_⟩
      · obtain ⟨s', hends, -, hscopes⟩ := hs.scopes_restored.1 st
        rcases hends with hok | ⟨d, herror⟩
        · cases hstmt.symm.trans hok
        · exact ⟨d, s', herror, hscopes (.stmt hst st.mem_nested_self)⟩
      · obtain ⟨s', hends, hscopes, hret⟩ := hs.scopes_restored.2
          ⟨"f", [⟨"x", some .int, .nowhere⟩], st, .nowhere⟩ 3 2 [0] rfl rfl rfl
        rcases hends with hok | ⟨d, herror⟩
        · cases hfunction.symm.trans hok
        · exact ⟨d, s', herror, hscopes, hret⟩
    · cases hrun
  · rw [hst] at hrun
    cases hrun

end SimpleLang
