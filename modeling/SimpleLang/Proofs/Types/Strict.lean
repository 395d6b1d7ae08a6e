import SimpleLang.Proofs.Types.Access
import SimpleLang.Proofs.Types.Reachable
import SimpleLang.Proofs.Types.Ways

/-!
# Reading a store strictly

The store's own questions take an answer for granted: a node that is missing counts as a node
that is not bound, and whoever follows links stops after as many as there are nodes.  The strict
questions are the same loops, but every node they look at must be there, and running out of steps
is a breach (`Access.strict`).

On a well-formed store the strict questions have the same answers and effects as the store's own
(`Access.strict_faithful`): no node outside of the store is ever looked at, and no loop is cut
short.  For representatives it is enough that every way along bindings ends
(`Unifier.strictFind_eq`).
-/

namespace SimpleLang

/-! ### The strict questions -/

namespace Unifier

/-- Follows at most `n` bindings from a node of the store. -/
def strictResolveWithin : Nat → NodeId → Unifier NodeId
  | 0, _ => throw (.breach .circularType)
  | n + 1, i => do
    match ← node i with
    | .var _ (some next) => strictResolveWithin n next
    | _ => return i

/-- The node that represents a node of the store. -/
def strictResolve (i : NodeId) : Unifier NodeId := do
  strictResolveWithin (← askTypes (·.size)) i

/-- Binds the variables on the way from a node to `root`, at most `n` of them, to `root`. -/
def strictCompressWithin (root : NodeId) : Nat → NodeId → Unifier Unit
  | 0, _ => throw (.breach .circularType)
  | n + 1, i => do
    if i = root then return ()
    else match ← node i with
      | .var id (some next) =>
        onTypes fun s => ((), s.set i (.var id (some root)))
        strictCompressWithin root n next
      | _ => return ()

/-- The representative of a node.  The variables on the way to it are bound to it directly. -/
def strictFind (i : NodeId) : Unifier NodeId := do
  let root ← strictResolve i
  strictCompressWithin root (← askTypes (·.size)) i
  return root

/-- Whether a node of the store is a variable that is not bound. -/
def strictIsUnbound (i : NodeId) : Unifier Bool := do
  match ← node i with
  | .var _ none => return true
  | _ => return false

/-- Whether the representative `root` appears in a type that is at most `n` levels deep. -/
def strictOccursWithin (root : NodeId) : Nat → NodeId → Unifier Bool
  | 0, _ => throw (.breach .circularType)
  | n + 1, i => do
    let i ← strictResolve i
    if i = root then return true
    else match ← node i with
      | .function result params =>
        if ← strictOccursWithin root n result then return true
        else params.anyM fun p => strictOccursWithin root n p
      | _ => return false

/-- Whether a variable appears in a type. -/
def strictOccurs (var type : NodeId) : Unifier Bool := do
  strictOccursWithin (← strictResolve var) (← askTypes (·.size)) type

/-- The text of a type that is at most `n` levels deep. -/
def strictDisplayWithin : Nat → NodeId → Unifier String
  | 0, _ => throw (.breach .circularType)
  | n + 1, i => do
    match ← node (← strictResolve i) with
    | .constant t => return t.text
    | .var id _ => return "t" ++ toString id
    | .function result params =>
      let shown ← params.mapM fun p => strictDisplayWithin n p
      return "(" ++ ", ".intercalate shown ++ ") -> " ++ (← strictDisplayWithin n result)

/-- A type as it is shown. -/
def strictDisplay (i : NodeId) : Unifier String := do
  strictDisplayWithin (← askTypes (·.size)) i

end Unifier

namespace Access

/-- Every node that is looked at must be there, and every loop must come to its end. -/
def strict : Access where
  find := Unifier.strictFind
  isUnbound := Unifier.strictIsUnbound
  occurs := Unifier.strictOccurs
  display := Unifier.strictDisplay

end Access

/-! ### The strict questions and the store's own -/

namespace Unifier

open TypeStore

variable {i : Inference} {a : NodeId}

/-- Steps that only read may be taken one after another. -/
theorem mapM_of_ok {f : NodeId → Unifier String} {g : NodeId → String} :
    ∀ {l : List NodeId}, (∀ p ∈ l, f p i = .ok (g p) i) → l.mapM f i = .ok (l.map g) i := by
  intro l
  induction l with
  | nil => exact fun _ => rfl
  | cons p l ih =>
    intro h
    rw [List.mapM_cons, bind_of_ok (h p List.mem_cons_self),
      bind_of_ok (ih fun q hq => h q (List.mem_cons_of_mem _ hq))]
    rfl

theorem anyM_of_ok {f : NodeId → Unifier Bool} {g : NodeId → Bool} :
    ∀ {l : List NodeId}, (∀ p ∈ l, f p i = .ok (g p) i) → l.anyM f i = .ok (l.any g) i := by
  intro l
  induction l with
  | nil => exact fun _ => rfl
  | cons p l ih =>
    intro h
    rw [List.anyM, bind_of_ok (h p List.mem_cons_self), List.any_cons]
    cases g p with
    | true => rfl
    | false => exact ih fun q hq => h q (List.mem_cons_of_mem _ hq)

theorem strictResolveWithin_eq (hs : i.types.BindingsEnd) : ∀ {k : Nat} {a : NodeId},
    a < i.types.size → i.types.wayLength a ≤ k →
      strictResolveWithin k a i = .ok (i.types.resolve a) i := by
  intro k
  induction k with
  | zero =>
    intro a ha hk
    have := wayLength_pos ha
    omega
  | succ k ih =>
    intro a ha hk
    obtain ⟨n, hn⟩ := exists_node_of_lt ha
    rw [strictResolveWithin, bind_of_ok (node_eq hn)]
    rcases n with t | ⟨id, _ | j⟩ | ⟨result, params⟩
    · rw [resolve_of_root (root_of_node hn (by simp))]
      rfl
    · rw [resolve_of_root (root_of_node hn (by simp))]
      rfl
    · have := hs.wayLength_lt ⟨id, hn⟩
      rw [hs.resolve_of_binds ⟨id, hn⟩]
      exact ih (hs.lt_of_binds ⟨id, hn⟩) (by omega)
    · rw [resolve_of_root (root_of_node hn (by simp))]
      rfl

theorem strictResolve_eq (hs : i.types.BindingsEnd) (ha : a < i.types.size) :
    strictResolve a i = .ok (i.types.resolve a) i :=
  strictResolveWithin_eq hs ha (i.types.wayLength_le_size a)

/-- The way to the representative is walked to its end.  Shortening it behind makes no way longer,
so the steps that are left are enough. -/
theorem strictCompressWithin_eq : ∀ {k : Nat} {a : NodeId} {s : TypeStore} (log : Array Event),
    s.BindingsEnd → a < s.size → s.wayLength a ≤ k →
      strictCompressWithin (s.resolve a) k a ⟨s, log⟩ =
        .ok () ⟨compressWithin (s.resolve a) k a s, log⟩ := by
  intro k
  induction k with
  | zero =>
    intro a s log hs ha hk
    have := wayLength_pos ha
    omega
  | succ k ih =>
    intro a s log hs ha hk
    rw [strictCompressWithin, compressWithin]
    by_cases hroot : a = s.resolve a
    · rw [if_pos hroot, if_pos hroot]
      rfl
    · rw [if_neg hroot, if_neg hroot]
      obtain ⟨id, j, hn⟩ := exists_bound_of_not_root
        fun hr : s.Root a => hroot (resolve_of_root hr).symm
      -- the rest of the way is walked in the store in which `a` is bound directly
      have hstep := hs.rebound hn
      have hj := hs.wayLength_lt ⟨id, hn⟩
      have hle := hstep.wayLength_le j
      have hset : onTypes (fun t => ((), t.set a (.var id (some (s.resolve j))))) ⟨s, log⟩ =
          .ok () ⟨s.set a (.var id (some (s.resolve j))), log⟩ := rfl
      have hrest := ih log hstep.bindingsEnd (a := j)
        (by rw [size_set]; exact hs.lt_of_binds ⟨id, hn⟩) (by omega)
      rw [hstep.resolve_eq] at hrest
      rw [bind_of_ok (node_eq (i := ⟨s, log⟩) hn), hn, hs.resolve_of_binds ⟨id, hn⟩]
      exact (bind_of_ok hset).trans hrest

theorem strictFind_eq (hs : i.types.BindingsEnd) (ha : a < i.types.size) :
    strictFind a i = .ok (i.types.resolve a) { i with types := (i.types.find a).2 } := by
  have hcompress : strictCompressWithin (i.types.resolve a) i.types.size a i =
      .ok () { i with types := (i.types.find a).2 } :=
    strictCompressWithin_eq i.log hs ha (i.types.wayLength_le_size a)
  rw [strictFind, bind_of_ok (strictResolve_eq hs ha), askTypes_bind, bind_of_ok hcompress]
  rfl

theorem strictIsUnbound_eq (ha : a < i.types.size) :
    strictIsUnbound a i = .ok (i.types.isUnbound a) i := by
  obtain ⟨n, hn⟩ := exists_node_of_lt ha
  rw [strictIsUnbound, bind_of_ok (node_eq hn), isUnbound, hn]
  rcases n with t | ⟨id, _ | j⟩ | ⟨result, params⟩ <;> rfl

theorem strictOccursWithin_eq (hs : i.types.WellFormed) (v : NodeId) : ∀ {k : Nat} {a : NodeId},
    a < i.types.size → i.types.rank a ≤ k →
      strictOccursWithin (i.types.resolve v) k a i = .ok (i.types.occurs v a) i := by
  intro k
  induction k with
  | zero =>
    intro a ha hk
    have := rank_pos ha
    omega
  | succ k ih =>
    intro a ha hk
    have hle := rank_resolve_le hs a
    rw [strictOccursWithin, bind_of_ok (strictResolve_eq hs.bindingsEnd ha), hs.occurs_eq v ha]
    by_cases hv : i.types.resolve a = i.types.resolve v
    · rw [if_pos hv, beq_iff_eq.2 hv, Bool.true_or]
      rfl
    rw [if_neg hv, beq_eq_false_iff_ne.2 hv, Bool.false_or]
    obtain ⟨n, hn⟩ := exists_node_of_lt (resolve_lt_size hs ha)
    rw [bind_of_ok (node_eq hn), hn]
    rcases n with t | _ | ⟨result, params⟩
    · rfl
    · rfl
    · have hj : ∀ j ∈ result :: params,
          strictOccursWithin (i.types.resolve v) k j i = .ok (i.types.occurs v j) i :=
        fun j hj => by
          have := hs.rank_lt ⟨_, hn, hj⟩
          exact ih (hs.lt_of_mem_links hn hj) (by omega)
      dsimp only
      rw [bind_of_ok (hj result List.mem_cons_self)]
      cases i.types.occurs v result with
      | true => rfl
      | false => exact anyM_of_ok fun p hp => hj p (List.mem_cons_of_mem _ hp)

theorem strictOccurs_eq (hs : i.types.WellFormed) {v : NodeId} (hv : v < i.types.size)
    (ha : a < i.types.size) : strictOccurs v a i = .ok (i.types.occurs v a) i := by
  rw [strictOccurs, bind_of_ok (strictResolve_eq hs.bindingsEnd hv), askTypes_bind]
  exact strictOccursWithin_eq hs v ha (i.types.rank_le_size a)

theorem strictDisplayWithin_eq (hs : i.types.WellFormed) : ∀ {k : Nat} {a : NodeId},
    a < i.types.size → i.types.rank a ≤ k →
      strictDisplayWithin k a i = .ok (i.types.display a) i := by
  intro k
  induction k with
  | zero =>
    intro a ha hk
    have := rank_pos ha
    omega
  | succ k ih =>
    intro a ha hk
    have hle := rank_resolve_le hs a
    obtain ⟨n, hn⟩ := exists_node_of_lt (resolve_lt_size hs ha)
    rw [strictDisplayWithin, bind_of_ok (strictResolve_eq hs.bindingsEnd ha),
      bind_of_ok (node_eq hn), hs.display_eq ha, hn]
    rcases n with t | _ | ⟨result, params⟩
    · rfl
    · rfl
    · have hj : ∀ j ∈ result :: params, strictDisplayWithin k j i = .ok (i.types.display j) i :=
        fun j hj => by
          have := hs.rank_lt ⟨_, hn, hj⟩
          exact ih (hs.lt_of_mem_links hn hj) (by omega)
      dsimp only
      rw [bind_of_ok (mapM_of_ok fun p hp => hj p (List.mem_cons_of_mem _ hp)),
        bind_of_ok (hj result List.mem_cons_self)]
      rfl

end Unifier

/-- **The strict questions have the answers of the store's own** on every well-formed store. -/
theorem Access.strict_faithful : strict.Faithful where
  find hs ha := Unifier.strictFind_eq hs.bindingsEnd ha
  isUnbound _ ha := Unifier.strictIsUnbound_eq ha
  occurs hs hv ht := Unifier.strictOccurs_eq hs hv ht
  display hs ha := Unifier.strictDisplayWithin_eq hs ha (TypeStore.rank_le_size _ _)

end SimpleLang
