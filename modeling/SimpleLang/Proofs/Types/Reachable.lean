import SimpleLang.Proofs.Types.Unify
import Mathlib.Data.List.Range

/-!
# The stores that can arise

A store begins with the two constants and changes only through its operations: variables and
function types are added, representatives are asked for, types are made equal, with success or
without.  Every store that arises so is valid (`TypeStore.Reachable.valid`): the constants are
where they were, the store is well formed, and the variables are numbered in order.

On a well-formed store the questions that follow links have answers that do not depend on a
bound: `resolve`, `occurs` and `display` obey the plain recursive equations, and the recursion
ends because links are well founded (`TypeStore.WellFormed.ends`).
-/

namespace SimpleLang

/-- The number of a variable. -/
def Node.varId? : Node → Option Nat
  | .var id _ => some id
  | _ => none

theorem Node.Kept.varId?_eq {n n' : Node} (h : n.Kept n') : n'.varId? = n.varId? := by
  cases h <;> rfl

namespace TypeStore

variable {s s' : TypeStore} {i : NodeId}

/-- The numbers of the variables, in the order of their nodes. -/
def varIds (s : TypeStore) : List Nat := s.nodes.toList.filterMap Node.varId?

/-- What holds of every store that arises. -/
structure Valid (s : TypeStore) : Prop extends WellFormed s where
  /-- The first node is the type of integers. -/
  int : s.node? 0 = some (.constant .int)
  /-- The second node is the type of truth values. -/
  bool : s.node? 1 = some (.constant .bool)
  /-- Variables are numbered in the order in which they were added. -/
  varIds_eq : s.varIds = List.range s.varCount

/-- One operation on a store; its arguments are nodes of the store. -/
inductive Step : TypeStore → TypeStore → Prop
  /-- A variable is added. -/
  | fresh (s : TypeStore) : Step s s.fresh.2
  /-- A type is found for a declaration. -/
  | declared (s : TypeStore) (type : Option BaseType) : Step s (s.declared type).2
  /-- A function type is added. -/
  | function {s : TypeStore} {result : NodeId} {params : List NodeId} :
    (∀ j ∈ result :: params, j < s.size) → Step s (s.function result params).2
  /-- A representative is asked for. -/
  | find {s : TypeStore} {i : NodeId} : i < s.size → Step s (s.find i).2
  /-- Two types are made equal. -/
  | unified {s : TypeStore} {a b : NodeId} {log : Array Event} {u : Unit} {after : Inference} :
    a < s.size → b < s.size → Unifier.unify a b ⟨s, log⟩ = .ok u after → Step s after.types
  /-- Two types cannot be made equal, which may be found when some bindings are made. -/
  | clashed {s : TypeStore} {a b : NodeId} {log : Array Event} {e : Failure Problem}
      {after : Inference} :
    a < s.size → b < s.size → Unifier.unify a b ⟨s, log⟩ = .error e after → Step s after.types

/-- The store arises from the first one by operations. -/
def Reachable (s : TypeStore) : Prop := Relation.ReflTransGen Step initial s

/-! ### Validity -/

theorem varIds_push (s : TypeStore) (n : Node) (c : Nat) :
    (s.push n c).varIds = s.varIds ++ n.varId?.toList := by
  change (s.nodes.push n).toList.filterMap _ = _
  rw [Array.toList_push, List.filterMap_append]
  cases h : n.varId? <;> simp [varIds, h]

theorem Refines.varIds_eq (h : s.Refines s') : s'.varIds = s.varIds := by
  have hmap : s'.nodes.toList.map Node.varId? = s.nodes.toList.map Node.varId? := by
    apply List.ext_getElem?
    intro i
    simp only [List.getElem?_map, Array.getElem?_toList]
    change (s'.node? i).map _ = (s.node? i).map _
    cases hn : s.node? i with
    | none =>
      have hle : s'.size ≤ i := by rw [h.size_eq]; exact node?_eq_none_iff.1 hn
      rw [node?_eq_none_iff.2 hle]
    | some n =>
      obtain ⟨n', hn', hk⟩ := h.kept i n hn
      rw [hn', Option.map_some, Option.map_some, hk.varId?_eq]
  have hids : ∀ l : List Node, l.filterMap Node.varId? = (l.map Node.varId?).filterMap id :=
    fun l => by rw [List.filterMap_map, Function.id_comp]
  rw [varIds, varIds, hids, hids, hmap]

theorem valid_initial : initial.Valid := ⟨wellFormed_initial, rfl, rfl, rfl⟩

namespace Valid

theorem constant (hs : s.Valid) (t : BaseType) :
    s.node? (TypeStore.constant t) = some (.constant t) := by
  cases t with
  | int => exact hs.int
  | bool => exact hs.bool

theorem refines (hs : s.Valid) (h : s.Refines s') : s'.Valid :=
  ⟨h.wellFormed, h.constant hs.int, h.constant hs.bool,
    by rw [h.varIds_eq, h.varCount_eq, hs.varIds_eq]⟩

theorem fresh (hs : s.Valid) : s.fresh.2.Valid := by
  have hext := extends_push s (.var s.varCount none) (s.varCount + 1)
  refine ⟨wellFormed_fresh hs.toWellFormed, hext.constant hs.int, hext.constant hs.bool, ?_⟩
  rw [fresh_eq, varIds_push, hs.varIds_eq]
  exact List.range_succ.symm

theorem function (hs : s.Valid) {result : NodeId} {params : List NodeId}
    (h : ∀ j ∈ result :: params, j < s.size) : (s.function result params).2.Valid := by
  have hext := extends_push s (.function result params) s.varCount
  refine ⟨wellFormed_function hs.toWellFormed h, hext.constant hs.int, hext.constant hs.bool, ?_⟩
  rw [function_eq, varIds_push, hs.varIds_eq]
  exact List.append_nil _

theorem declared (hs : s.Valid) (t : Option BaseType) : (s.declared t).2.Valid := by
  cases t with
  | none => exact hs.fresh
  | some t => exact hs

end Valid

/-- Every operation keeps a store valid. -/
theorem Step.valid (h : Step s s') (hs : s.Valid) : s'.Valid := by
  cases h with
  | fresh => exact hs.fresh
  | declared type => exact hs.declared type
  | function hj => exact hs.function hj
  | find hi => exact hs.refines (find_sameTypes hs.toWellFormed _).toRefines
  | unified ha hb hu =>
    exact hs.refines (hu ▸ Unifier.unify_solves hs.toWellFormed ha hb).refines_ok
  | clashed ha hb hu =>
    exact hs.refines (hu ▸ Unifier.unify_solves hs.toWellFormed ha hb).refines_error

theorem Reachable.valid (h : Reachable s) : s.Valid := by
  induction h with
  | refl => exact valid_initial
  | tail _ hstep ih => exact hstep.valid ih

/-! ### Questions that follow links -/

/-- The questions that follow links end on every node: links are well founded, and the answers
obey the recursive equations, in which every node asked about is reached by links. -/
structure Ends (s : TypeStore) : Prop where
  /-- No way along links goes on for ever. -/
  wellFounded : WellFounded (flip s.Link)
  /-- A bound variable has the representative of its target, any other node is its own. -/
  resolve_eq : ∀ i, s.resolve i =
    match s.node? i with
    | some (.var _ (some next)) => s.resolve next
    | _ => i
  /-- A node is found in itself and in function types with it in a component. -/
  occurs_eq : ∀ v i, i < s.size → s.occurs v i =
    (s.resolve i == s.resolve v ||
      match s.node? (s.resolve i) with
      | some (.function result params) => s.occurs v result || params.any fun p => s.occurs v p
      | _ => false)
  /-- A type is shown by its representative, a function type by its components. -/
  display_eq : ∀ i, i < s.size → s.display i =
    match s.node? (s.resolve i) with
    | some (.constant t) => t.text
    | some (.var id _) => "t" ++ toString id
    | some (.function result params) =>
      "(" ++ ", ".intercalate (params.map s.display) ++ ") -> " ++ s.display result
    | none => ""

theorem WellFormed.occurs_eq (hs : s.WellFormed) (v : NodeId) (hi : i < s.size) :
    s.occurs v i = (s.resolve i == s.resolve v ||
      match s.node? (s.resolve i) with
      | some (.function result params) => s.occurs v result || params.any fun p => s.occurs v p
      | _ => false) := by
  have hle := (rank_resolve_le hs i).trans (s.rank_le_size i)
  obtain ⟨k, hk⟩ : ∃ k, s.size = k + 1 := Nat.exists_eq_add_one.2 (Nat.zero_lt_of_lt hi)
  rw [occurs, hk, occursWithin]
  congr 1
  cases hn : s.node? (s.resolve i) with
  | none => rfl
  | some n =>
    rcases n with _ | _ | ⟨result, params⟩
    · rfl
    · rfl
    · have hj : ∀ j ∈ result :: params, s.occursWithin (s.resolve v) k j = s.occurs v j :=
        fun j hj => by
          have := hs.rank_lt ⟨_, hn, hj⟩
          exact occursWithin_eq hs _ (hs.lt_of_mem_links hn hj) (by omega) (s.rank_le_size j)
      dsimp only
      rw [hj result (by simp), Bool.eq_iff_iff, Bool.or_eq_true, Bool.or_eq_true,
        List.any_eq_true, List.any_eq_true]
      exact or_congr_right (exists_congr fun p => and_congr_right fun hp => by
        rw [hj p (by simp [hp])])

end TypeStore

theorem Ty.texts_eq_intercalate (ts : List Ty) : texts ts = ", ".intercalate (ts.map text) := by
  induction ts with
  | nil => simp [texts]
  | cons t ts ih =>
    cases ts with
    | nil => simp [texts]
    | cons u ts =>
      rw [texts, ih, List.map_cons (l := u :: ts), List.map_cons, String.intercalate_cons_cons]
      simp

namespace TypeStore

variable {s : TypeStore} {i : NodeId}

theorem WellFormed.display_eq (hs : s.WellFormed) (hi : i < s.size) : s.display i =
    match s.node? (s.resolve i) with
    | some (.constant t) => t.text
    | some (.var id _) => "t" ++ toString id
    | some (.function result params) =>
      "(" ++ ", ".intercalate (params.map s.display) ++ ") -> " ++ s.display result
    | none => "" := by
  rw [display, term_eq hs hi, ← denote_resolve hs i]
  obtain ⟨n, hn⟩ := exists_node_of_lt (resolve_lt_size hs hi)
  rcases n with t | ⟨id, _ | j⟩ | ⟨result, params⟩
  · rw [denote_constant hn, Ty.subst_base, hn, Ty.text]
  · rw [denote_unbound hn, Ty.subst_variable, shown, hn, Ty.text]
  · exact absurd hn (root_resolve hs i id j)
  · have hj : ∀ j ∈ result :: params, ((s.denote j).subst s.shown).text = s.display j :=
      fun j hj => by rw [display, term_eq hs (hs.lt_of_mem_links hn hj)]
    have hp : (params.map s.denote).map (Ty.text ∘ Ty.subst s.shown) = params.map s.display := by
      rw [List.map_map]
      exact List.map_congr_left fun p hp => hj p (List.mem_cons_of_mem _ hp)
    rw [denote_function hs hn, Ty.subst_fn, Ty.text, Ty.texts_eq_intercalate, List.map_map, hp,
      hj result (by simp), hn]

theorem WellFormed.ends (hs : s.WellFormed) : s.Ends where
  wellFounded := hs.wellFounded
  resolve_eq i := by
    split
    · rename_i id next hn
      exact resolve_of_bound hs hn
    · rename_i hn
      exact resolve_of_root fun id j h => hn id j h
  occurs_eq v _ hi := hs.occurs_eq v hi
  display_eq _ hi := hs.display_eq hi

/-- **Every store that arises is valid**, also after types were found not to agree: the constants
are in place, links stay in the store and make no circle, and variables are numbered in order.
So following bindings, looking for a variable and showing a type end on every node. -/
theorem Reachable.valid_and_ends (h : Reachable s) : s.Valid ∧ s.Ends :=
  ⟨h.valid, h.valid.ends⟩

/-- A comparison of `(int) -> t0` with `(bool) -> int` that fails after binding `t0`. -/
theorem Reachable.valid_and_ends_after_clash :
    let s := ((initial.fresh.2.function 2 [0]).2.function 0 [1]).2
    ∃ e after, Unifier.unify 3 4 ⟨s, #[]⟩ = .error e after ∧
      after.types.node? 2 = some (.var 0 (some 0)) ∧ Reachable after.types ∧
        after.types.Valid ∧ after.types.Ends := by
  intro s
  have hs : Reachable s :=
    (((Relation.ReflTransGen.refl.tail (.fresh _)).tail (.function (by decide))).tail
      (.function (by decide)))
  have hrun : (match Unifier.unify 3 4 ⟨s, #[]⟩ with
      | .ok _ _ => none
      | .error _ after => after.types.node? 2) = some (.var 0 (some 0)) := by decide +kernel
  rcases hr : Unifier.unify 3 4 ⟨s, #[]⟩ with ⟨u, after⟩ | ⟨e, after⟩
  · rw [hr] at hrun
    cases hrun
  · rw [hr] at hrun
    have hreach : Reachable after.types := hs.tail (.clashed (by decide) (by decide) hr)
    obtain ⟨hvalid, hends⟩ := hreach.valid_and_ends
    exact ⟨e, after, rfl, hrun, hreach, hvalid, hends⟩

end TypeStore

end SimpleLang
