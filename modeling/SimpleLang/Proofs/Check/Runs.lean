import SimpleLang.Check.Session
import SimpleLang.Proofs.Types.Unify

/-!
# What the steps of a check come to

The outcome of each step that checks are made of, where it is known what the step finds.
-/

namespace SimpleLang.Checker

open TypeStore

variable {α : Type} {s t u : Session} {x : String} {i j : NodeId} {position : Position}
  {scope : List (String × NodeId)} {outer : List (List (String × NodeId))}

theorem get_eq (s : Session) : (get : Checker Session) s = .ok s s := rfl

theorem note_eq (e : Event) (s : Session) :
    note e s = .ok () { s with log := s.log.push e } := rfl

theorem setReturnType_eq (ret : Option NodeId) (s : Session) :
    setReturnType ret s = .ok () { s with returnType := ret } := rfl

theorem infer_of_ok {work : Unifier α} {a : α} {inference : Inference}
    (h : work s.toInference = .ok a inference) :
    infer position work s = .ok a { s with toInference := inference } := by
  rw [infer, h]

/-- The representative that is found is the node that it is afterwards. -/
theorem representative_of_node {n : Node}
    (hn : (s.types.find i).2.node? (s.types.resolve i) = some n) :
    representative i position s =
      .ok (s.types.resolve i, n) { s with types := (s.types.find i).2 } := by
  have hfind : Unifier.find i s.toInference =
      .ok (s.types.resolve i) ⟨(s.types.find i).2, s.log⟩ := rfl
  refine infer_of_ok ?_
  rw [bind_of_ok hfind, bind_of_ok (Unifier.node_eq (i := ⟨(s.types.find i).2, s.log⟩) hn)]
  rfl

/-- In a well-formed store there is a representative, and it is not bound. -/
theorem exists_representative (hs : s.types.WellFormed) (hi : i < s.types.size) :
    ∃ n, (s.types.find i).2.node? (s.types.resolve i) = some n ∧
      (s.types.find i).2.Root (s.types.resolve i) := by
  have hfind := find_sameTypes hs i
  obtain ⟨n, hn⟩ := exists_node_of_lt
    (show s.types.resolve i < (s.types.find i).2.size by
      rw [hfind.size_eq]
      exact resolve_lt_size hs hi)
  refine ⟨n, hn, ?_⟩
  rw [← hfind.resolve_eq]
  exact root_resolve hfind.wellFormed i

/-! ### Names and scopes -/

theorem lookup_of_some (h : s.scopes.lookup? x = some i) : lookup x position s = .ok i s := by
  rw [lookup, bind_of_ok (get_eq s), h]
  rfl

theorem lookup_of_none (h : s.scopes.lookup? x = none) :
    lookup x position s = .error (.rejected ⟨.undeclaredName x, position⟩) s := by
  rw [lookup, bind_of_ok (get_eq s), h]
  rfl

theorem declare_of_new (hstack : s.scopes.stack = scope :: outer)
    (hnew : scope.lookup x = none) :
    declare x i position s = .ok () { s with scopes := ⟨((x, i) :: scope) :: outer⟩ } := by
  rw [declare, bind_of_ok (get_eq s), Scopes.declare, hstack]
  simp only [hnew]
  rfl

theorem declare_of_duplicate (hstack : s.scopes.stack = scope :: outer)
    (hdup : scope.lookup x = some j) :
    declare x i position s = .error (.rejected ⟨.duplicateDeclaration x, position⟩) s := by
  rw [declare, bind_of_ok (get_eq s), Scopes.declare, hstack]
  simp only [hdup]
  rfl

theorem enterScope_eq (s : Session) : enterScope s = .ok () { s with
    scopes := s.scopes.enter, log := s.log.push (.scopeEntered s.scopes.enter.depth) } := rfl

theorem exitScope_of_exit {S : Scopes NodeId} (h : s.scopes.exit? = some S) :
    exitScope s = .ok () { s with
      scopes := S, log := s.log.push (.scopeExited S.depth) } := by
  rw [exitScope, bind_of_ok (get_eq s), h]
  rfl

/-! ### Work that is followed by something in any case -/

theorem andThenAlways_of_ok {work : Checker α} {after : Checker Unit} {a : α}
    (h : work s = .ok a t) (h' : after t = .ok () u) :
    andThenAlways work after s = .ok a u := by
  rw [andThenAlways, h]
  exact bind_of_ok h'

theorem andThenAlways_of_rejected {work : Checker α} {after : Checker Unit} {d : Diagnostic}
    (h : work s = .error (.rejected d) t) (h' : after t = .ok () u) :
    andThenAlways work after s = .error (.rejected d) u := by
  rw [andThenAlways, h]
  exact bind_of_ok h'

end SimpleLang.Checker
