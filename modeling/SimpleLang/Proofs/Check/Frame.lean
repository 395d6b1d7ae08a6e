import SimpleLang.Check.Program
import SimpleLang.Proofs.Types.Growth

/-!
# What a part of a check leaves alone

A part of a check works in the innermost scope: it may declare names there that are not declared
there yet, and it leaves the scopes around and the return type as they were
(`Session.Frame`).  Which names can be declared is a parameter; without any, no scope changes.
For a statement these are the names of the declarations that stand in its own scope
(`Stmt.declared`).

A session is *well formed* when its store is, when all nodes it refers to are there, and when a
scope is open (`Session.WellFormed`).
-/

namespace SimpleLang

/-- The names that a statement can declare in the scope it stands in. -/
def Stmt.declared : Stmt → List String
  | .decl _ d => [d.name]
  | .ifThen _ _ t => t.declared
  | .ifElse _ _ t e => t.declared ++ e.declared
  | .while _ _ b => b.declared
  | .block _ _ _ | .assign _ _ _ | .return _ _ => []

namespace Scopes

variable {α : Type} {D D' : String → Prop} {S S' S'' : Scopes α}

/-- What the innermost scope declares a name with. -/
def here? (S : Scopes α) (x : String) : Option α := S.stack.head?.bind (·.lookup x)

theorem lookup?_of_here? {x : String} {a : α} (h : S.here? x = some a) : S.lookup? x = some a := by
  obtain ⟨scope, hscope, hl⟩ := Option.bind_eq_some_iff.1 h
  obtain ⟨outer, hstack⟩ := List.head?_eq_some_iff.1 hscope
  rw [lookup?, hstack, List.findSome?_cons, hl]

/-- The innermost scope has got more declarations, each of a name in `D` that it did not declare
before. -/
inductive Extends (D : String → Prop) (S : Scopes α) : Scopes α → Prop
  /-- Nothing is declared. -/
  | refl : Extends D S S
  /-- One more name is declared. -/
  | declare {scope : List (String × α)} {outer : List (List (String × α))} {x : String} {a : α} :
    Extends D S ⟨scope :: outer⟩ → D x → scope.lookup x = none →
      Extends D S ⟨((x, a) :: scope) :: outer⟩

namespace Extends

theorem trans (h : S.Extends D S') (h' : S'.Extends D S'') : S.Extends D S'' := by
  induction h' with
  | refl => exact h
  | declare _ hx hnone ih => exact .declare ih hx hnone

theorem mono (hD : ∀ x, D x → D' x) (h : S.Extends D S') : S.Extends D' S' := by
  induction h with
  | refl => exact .refl
  | declare _ hx hnone ih => exact .declare ih (hD _ hx) hnone

/-- The scopes around the innermost are the same. -/
theorem tail_eq (h : S.Extends D S') : S'.stack.tail = S.stack.tail := by
  induction h with
  | refl => rfl
  | declare _ _ _ ih => exact ih

/-- Where no name can be declared, nothing changes. -/
theorem eq_of_forall_not (hD : ∀ x, ¬ D x) (h : S.Extends D S') : S' = S := by
  cases h with
  | refl => rfl
  | declare _ hx _ => exact absurd hx (hD _)

/-- What the innermost scope declares stays declared. -/
theorem here?_eq (h : S.Extends D S') {x : String} {a : α} (hx : S.here? x = some a) :
    S'.here? x = some a := by
  induction h with
  | refl => exact hx
  | @declare scope outer y b _ _ hnone ih =>
    have hx' : scope.lookup x = some a := ih
    have hne : x ≠ y := by
      rintro rfl
      rw [hnone] at hx'
      cases hx'
    change ((y, b) :: scope).lookup x = some a
    rw [List.lookup_cons, show (x == y) = false by simpa using hne]
    exact hx'

end Extends

end Scopes

namespace Session

variable {s t u : Session} {D : String → Prop}

/-! ### Well-formed sessions -/

/-- All nodes that a session refers to are there, in a well-formed store, and a scope is open. -/
structure WellFormed (s : Session) : Prop where
  /-- The store is well formed. -/
  types : s.types.WellFormed
  /-- The nodes of the constants are there. -/
  constants : ∀ t, TypeStore.constant t < s.types.size
  /-- Names are declared with nodes of the store. -/
  scopes : ∀ scope ∈ s.scopes.stack, ∀ d ∈ scope, d.2 < s.types.size
  /-- A scope is open. -/
  opened : s.scopes.stack ≠ []
  /-- The return type is a node of the store. -/
  returnType : ∀ i, s.returnType = some i → i < s.types.size

namespace WellFormed

theorem lookup_lt (hs : s.WellFormed) {x : String} {i : NodeId}
    (h : s.scopes.lookup? x = some i) : i < s.types.size := by
  obtain ⟨scope, hscope, hl⟩ := List.exists_of_findSome?_eq_some h
  obtain ⟨l₁, l₂, rfl, -⟩ := List.lookup_eq_some_iff.1 hl
  exact hs.scopes _ hscope (x, i) (by simp)

/-- The store may change as long as it stays well formed and keeps its nodes. -/
theorem of_types (hs : s.WellFormed) {i : Inference} (hi : i.types.WellFormed)
    (hsize : s.types.size ≤ i.types.size) :
    ({ s with toInference := i } : Session).WellFormed where
  types := hi
  constants c := Nat.lt_of_lt_of_le (hs.constants c) hsize
  scopes scope hscope d hd := Nat.lt_of_lt_of_le (hs.scopes scope hscope d hd) hsize
  opened := hs.opened
  returnType j hj := Nat.lt_of_lt_of_le (hs.returnType j hj) hsize

theorem declare (hs : s.WellFormed) {scope : List (String × NodeId)}
    {outer : List (List (String × NodeId))} (hstack : s.scopes.stack = scope :: outer)
    {i : NodeId} (hi : i < s.types.size) (x : String) :
    ({ s with scopes := ⟨((x, i) :: scope) :: outer⟩ } : Session).WellFormed where
  types := hs.types
  constants := hs.constants
  scopes := by
    intro scope' hscope' d hd
    rcases List.mem_cons.1 hscope' with rfl | hmem
    · rcases List.mem_cons.1 hd with rfl | hd
      · exact hi
      · exact hs.scopes scope (by rw [hstack]; exact List.mem_cons_self) d hd
    · exact hs.scopes scope' (by rw [hstack]; exact List.mem_cons_of_mem _ hmem) d hd
  opened := List.cons_ne_nil _ _
  returnType := hs.returnType

theorem enter (hs : s.WellFormed) :
    ({ s with scopes := s.scopes.enter } : Session).WellFormed where
  types := hs.types
  constants := hs.constants
  scopes := by
    intro scope hscope d hd
    rcases List.mem_cons.1 hscope with rfl | hmem
    · cases hd
    · exact hs.scopes scope hmem d hd
  opened := List.cons_ne_nil _ _
  returnType := hs.returnType

/-- What is around the innermost scope is in force when it is closed. -/
theorem exit (hs : s.WellFormed) {S : Scopes NodeId} (h : s.scopes.stack.tail = S.stack) :
    s.scopes.exit? = some S := by
  obtain ⟨scope, outer, hstack⟩ := List.exists_cons_of_ne_nil hs.opened
  rw [hstack, List.tail_cons] at h
  rw [Scopes.exit?, hstack]
  exact congrArg (fun l => some (Scopes.mk l)) h

/-- Scopes of an earlier session may be put back. -/
theorem setScopes (ht : t.WellFormed) (hs : s.WellFormed) (hsize : s.types.size ≤ t.types.size) :
    ({ t with scopes := s.scopes } : Session).WellFormed where
  types := ht.types
  constants := ht.constants
  scopes scope hscope d hd := Nat.lt_of_lt_of_le (hs.scopes scope hscope d hd) hsize
  opened := hs.opened
  returnType := ht.returnType

theorem setReturnType (hs : s.WellFormed) {ret : Option NodeId}
    (hret : ∀ i, ret = some i → i < s.types.size) :
    ({ s with returnType := ret } : Session).WellFormed :=
  ⟨hs.types, hs.constants, hs.scopes, hs.opened, hret⟩

end WellFormed

theorem wellFormed_initial : Session.initial.WellFormed where
  types := TypeStore.wellFormed_initial
  constants t := by cases t <;> decide
  scopes := by simp [Session.initial, Scopes.initial]
  opened := by simp [Session.initial, Scopes.initial]
  returnType := by simp [Session.initial]

/-! ### Frames -/

/-- What a part of a check that can declare names in `D` leaves of a session. -/
structure Frame (D : String → Prop) (s t : Session) : Prop where
  /-- Types become more definite at most. -/
  types : s.types.Extends t.types
  /-- Only the innermost scope has changed, by declarations of new names. -/
  scopes : s.scopes.Extends D t.scopes
  /-- The return type is the same. -/
  returnType : t.returnType = s.returnType

namespace Frame

theorem refl (D : String → Prop) (s : Session) : s.Frame D s := ⟨.refl _, .refl, rfl⟩

theorem trans (h : s.Frame D t) (h' : t.Frame D u) : s.Frame D u :=
  ⟨h.types.trans h'.types, h.scopes.trans h'.scopes, h'.returnType.trans h.returnType⟩

theorem lt (h : s.Frame D t) {i : NodeId} (hi : i < s.types.size) : i < t.types.size :=
  Nat.lt_of_lt_of_le hi h.types.size_le

end Frame

end Session

end SimpleLang
