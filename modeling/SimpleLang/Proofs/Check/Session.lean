import SimpleLang.Proofs.Check.Frame
import SimpleLang.Proofs.Check.Typing
import SimpleLang.Proofs.Types.Ground
import SimpleLang.Proofs.Types.Reachable

/-!
# Sessions under a valuation

A valuation turns open scopes into a context (`Scopes.context`), in which names have the ground
types of their nodes.  The meaning of a name is then what the typing rules say it is
(`Scopes.resolves_context_iff`).

A session is *valid* when its store is and when all nodes it refers to are there.  A step of a
check may add nodes, make types more definite and declare names in the innermost scope; it leaves
the scopes around and the return type alone (`Session.Grows`).
-/

namespace SimpleLang

/-- A scope under a valuation. -/
def frameOf (M : Valuation) (scope : List (String × NodeId)) : Frame :=
  fun x => (scope.lookup x).map M

theorem frameOf_cons (M : Valuation) (x : String) (i : NodeId)
    (scope : List (String × NodeId)) :
    frameOf M ((x, i) :: scope) = (frameOf M scope).add x (M i) := by
  funext y
  by_cases h : y = x
  · simp [frameOf, Frame.add, h]
  · have hne : (y == x) = false := by simpa using h
    simp [frameOf, Frame.add, h, List.lookup_cons, hne]

theorem frameOf_congr {M M' : Valuation} {scope : List (String × NodeId)}
    (h : ∀ d ∈ scope, M' d.2 = M d.2) : frameOf M' scope = frameOf M scope := by
  funext x
  cases hl : scope.lookup x with
  | none => simp [frameOf, hl]
  | some i =>
    obtain ⟨l₁, l₂, rfl, -⟩ := List.lookup_eq_some_iff.1 hl
    simpa [frameOf, hl] using h (x, i) (by simp)

namespace Scopes

variable {S : Scopes NodeId} {M : Valuation}

/-- Open scopes under a valuation. -/
def context (S : Scopes NodeId) (M : Valuation) : Context := S.stack.map (frameOf M)

/-- A name has the type of the node that it is declared with. -/
theorem resolves_context_iff {x : String} {τ : GroundTy} :
    (S.context M).Resolves x τ ↔ ∃ i, S.lookup? x = some i ∧ M i = τ := by
  rw [context, lookup?]
  induction S.stack with
  | nil =>
    constructor
    · intro h
      cases h
    · rintro ⟨i, h, -⟩
      cases h
  | cons scope outer ih =>
    rw [List.map_cons, List.findSome?_cons]
    cases hl : scope.lookup x with
    | none =>
      have hnone : frameOf M scope x = none := by simp [frameOf, hl]
      rw [← ih]
      constructor
      · intro h
        cases h with
        | here h => rw [hnone] at h; cases h
        | outer _ h => exact h
      · exact .outer hnone
    | some i =>
      have hsome : frameOf M scope x = some (M i) := by simp [frameOf, hl]
      constructor
      · intro h
        cases h with
        | here h =>
          rw [hsome] at h
          exact ⟨i, rfl, Option.some.inj h⟩
        | outer h _ => rw [hsome] at h; cases h
      · rintro ⟨j, hj, rfl⟩
        cases hj
        exact .here hsome

end Scopes

namespace Session

variable {s s' s'' : Session} {M M' : Valuation}

/-! ### Valid sessions -/

/-- All nodes that a session refers to are there, in a valid store, and some scope is open. -/
structure Valid (s : Session) : Prop where
  /-- The store is valid. -/
  types : s.types.Valid
  /-- Names are declared with nodes of the store. -/
  scopes : ∀ scope ∈ s.scopes.stack, ∀ d ∈ scope, d.2 < s.types.size
  /-- A scope is open. -/
  opened : s.scopes.stack ≠ []
  /-- The return type is a node of the store. -/
  returnType : ∀ i, s.returnType = some i → i < s.types.size

theorem valid_initial : Session.initial.Valid where
  types := TypeStore.valid_initial
  scopes := by simp [Session.initial, Scopes.initial]
  opened := by simp [Session.initial, Scopes.initial]
  returnType := by simp [Session.initial]

/-- Two valuations give the nodes of a session the same types. -/
def Agree (s : Session) (M M' : Valuation) : Prop := ∀ i < s.types.size, M' i = M i

theorem Agree.refl (s : Session) (M : Valuation) : s.Agree M M := fun _ _ => rfl

theorem Agree.map (h : s.Agree M M') {is : List NodeId} (his : ∀ i ∈ is, i < s.types.size) :
    is.map M' = is.map M :=
  List.map_congr_left fun i hi => h i (his i hi)

namespace Valid

theorem context_congr {S : Scopes NodeId} (hs : s.Valid) (hS : s.scopes = S)
    (h : s.Agree M M') : S.context M' = S.context M := by
  subst hS
  exact List.map_congr_left fun scope hscope =>
    frameOf_congr fun d hd => h d.2 (hs.scopes scope hscope d hd)

theorem frame_congr {scope : List (String × NodeId)} (hs : s.Valid)
    (hS : s.scopes = ⟨[scope]⟩) (h : s.Agree M M') : frameOf M' scope = frameOf M scope :=
  (List.cons.inj (hs.context_congr hS h)).1

theorem returnType_congr {ret : Option NodeId} (hs : s.Valid) (hr : s.returnType = ret)
    (h : s.Agree M M') : ret.map M' = ret.map M := by
  cases ret with
  | none => rfl
  | some i => rw [Option.map_some, Option.map_some, h i (hs.returnType i hr)]

theorem constant_lt (hs : s.Valid) (t : BaseType) : TypeStore.constant t < s.types.size :=
  TypeStore.lt_size_of_node? (hs.types.constant t)

theorem wellFormed (hs : s.Valid) : s.WellFormed :=
  ⟨hs.types.toWellFormed, hs.constant_lt, hs.scopes, hs.opened, hs.returnType⟩

/-- Types may become more definite and the log longer. -/
theorem of_extends (hs : s.Valid) (ht : s'.types.Valid) (he : s.types.Extends s'.types)
    (hscopes : s'.scopes = s.scopes) (hr : s'.returnType = s.returnType) : s'.Valid where
  types := ht
  scopes := by
    rw [hscopes]
    exact fun scope hscope d hd => Nat.lt_of_lt_of_le (hs.scopes scope hscope d hd) he.size_le
  opened := by rw [hscopes]; exact hs.opened
  returnType i hi := Nat.lt_of_lt_of_le (hs.returnType i (by rw [← hr, hi])) he.size_le

theorem declare (hs : s.Valid) {scope : List (String × NodeId)}
    {outer : List (List (String × NodeId))} (hstack : s.scopes.stack = scope :: outer)
    {i : NodeId} (hi : i < s.types.size) (x : String) :
    ({ s with scopes := ⟨((x, i) :: scope) :: outer⟩ } : Session).Valid :=
  have hwf := hs.wellFormed.declare hstack hi x
  ⟨hs.types, hwf.scopes, hwf.opened, hwf.returnType⟩

theorem enter (hs : s.Valid) (ht : s'.types = s.types) (hscopes : s'.scopes = s.scopes.enter)
    (hr : s'.returnType = s.returnType) : s'.Valid where
  types := ht ▸ hs.types
  scopes := by rw [hscopes, ht]; exact hs.wellFormed.enter.scopes
  opened := by rw [hscopes]; exact hs.wellFormed.enter.opened
  returnType := by rw [hr, ht]; exact hs.returnType

end Valid

/-! ### Steps of a check -/

/-- What a step of a check may do to a session, whatever its outcome. -/
structure Grows (s s' : Session) : Prop where
  /-- The session is valid. -/
  valid : s'.Valid
  /-- Types become more definite at most. -/
  types : s.types.Extends s'.types
  /-- The scopes around the innermost are the same. -/
  outer : s'.scopes.stack.tail = s.scopes.stack.tail
  /-- The return type is the same. -/
  returnType : s'.returnType = s.returnType

namespace Grows

theorem refl (hs : s.Valid) : s.Grows s := ⟨hs, .refl _, rfl, rfl⟩

theorem trans (h : s.Grows s') (h' : s'.Grows s'') : s.Grows s'' :=
  ⟨h'.valid, h.types.trans h'.types, h'.outer.trans h.outer, h'.returnType.trans h.returnType⟩

theorem lt (h : s.Grows s') {i : NodeId} (hi : i < s.types.size) : i < s'.types.size :=
  Nat.lt_of_lt_of_le hi h.types.size_le

/-- A step that only works on types. -/
theorem of_extends (hs : s.Valid) (ht : s'.types.Valid) (he : s.types.Extends s'.types)
    (hscopes : s'.scopes = s.scopes) (hr : s'.returnType = s.returnType) : s.Grows s' :=
  ⟨hs.of_extends ht he hscopes hr, he, by rw [hscopes], hr⟩

end Grows

end Session

end SimpleLang
