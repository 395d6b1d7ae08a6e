import SimpleLang.Proofs.Types.Denote

/-!
# Models of a store

A *model* gives a type to every node in a way that respects what the nodes are: a constant has
its own type, a bound variable that of its target, a function type is made from the types of its
components.  Unbound variables are free, and in a well-formed store their types determine all
others: a model is the same thing as a substitution (`Models.eq_subst`, `models_subst`).

So what an operation does to the types of a store can be said by what it does to the models.
`Refines s s'` says that a store was only made more definite: nodes stay, variables keep their
numbers and stay bound, and no model is added.  Shortening the way to a representative changes
no model at all (`find_sameTypes`); binding a variable keeps exactly the models that give the
variable the type of its target (`bind_models_iff`).
-/

namespace SimpleLang

namespace Node

/-- What a node asks of the types given to nodes. -/
def Holds (M : NodeId → Ty) (i : NodeId) : Node → Prop
  | .constant t => M i = .base t
  | .var _ none => True
  | .var _ (some j) => M i = M j
  | .function result params => M i = .fn (params.map M) (M result)

theorem Holds.congr {M M' : NodeId → Ty} {i : NodeId} {n : Node} (h : n.Holds M i)
    (hi : M i = M' i) (hl : ∀ j ∈ n.links, M j = M' j) : n.Holds M' i := by
  rcases n with t | ⟨id, _ | j⟩ | ⟨result, params⟩
  · exact hi.symm.trans h
  · trivial
  · exact (hi.symm.trans h).trans (hl j (by simp))
  · have hp : params.map M = params.map M' :=
      List.map_congr_left fun p hp => hl p (by simp [hp])
    change M' i = .fn (params.map M') (M' result)
    rw [← hi, ← hp, ← hl result (by simp)]
    exact h

/-- What a node may turn into: it stays the same, or it is a variable that is now bound. -/
inductive Kept : Node → Node → Prop
  /-- Nothing happens. -/
  | same (n : Node) : Kept n n
  /-- A variable is bound, perhaps not for the first time. -/
  | bound (id : Nat) (binding : Option NodeId) (target : NodeId) :
    Kept (.var id binding) (.var id (some target))

theorem Kept.trans {n₁ n₂ n₃ : Node} (h : Kept n₁ n₂) (h' : Kept n₂ n₃) : Kept n₁ n₃ := by
  cases h with
  | same => exact h'
  | bound id b j =>
    cases h' with
    | same => exact .bound id b j
    | bound _ _ j' => exact .bound id b j'

end Node

namespace TypeStore

variable {s s' s'' : TypeStore} {i j : NodeId} {M : NodeId → Ty}

/-- The types given to nodes respect what the nodes are. -/
def Models (s : TypeStore) (M : NodeId → Ty) : Prop := ∀ i n, s.node? i = some n → n.Holds M i

/-! ### Models and substitutions -/

/-- A model is determined by what it gives to the unbound variables. -/
theorem Models.eq_subst (hs : s.WellFormed) (hM : s.Models M) (i : NodeId) :
    M i = (s.denote i).subst M := by
  induction i using hs.induction with
  | step i ih =>
    cases hn : s.node? i with
    | none => rw [denote_missing (node?_eq_none_iff.1 hn), Ty.subst_variable]
    | some n =>
      have hm := hM i n hn
      have hj : ∀ j ∈ n.links, M j = (s.denote j).subst M := fun j hj => ih j ⟨n, hn, hj⟩
      rcases n with t | ⟨id, _ | j⟩ | ⟨result, params⟩
      · rw [denote_constant hn]
        exact hm
      · rw [denote_unbound hn, Ty.subst_variable]
      · rw [denote_bound hs hn, ← hj j (by simp)]
        exact hm
      · rw [denote_function hs hn, Ty.subst_fn, List.map_map, ← hj result (by simp)]
        exact hm.trans (congrArg (Ty.fn · _)
          (List.map_congr_left fun p hp => hj p (by simp [hp])))

/-- Every substitution gives a model. -/
theorem models_subst (hs : s.WellFormed) (σ : NodeId → Ty) :
    s.Models fun i => (s.denote i).subst σ := by
  intro i n hn
  rcases n with t | ⟨id, _ | j⟩ | ⟨result, params⟩
  · simp only [Node.Holds, denote_constant hn, Ty.subst_base]
  · trivial
  · simp only [Node.Holds, denote_bound hs hn]
  · simp only [Node.Holds, denote_function hs hn, Ty.subst_fn, List.map_map]
    rfl

/-- The types that nodes stand for are themselves a model. -/
theorem models_denote (hs : s.WellFormed) : s.Models s.denote := by
  have h := models_subst hs Ty.var
  simpa only [Ty.subst_var] using h

theorem Models.resolve (hs : s.WellFormed) (hM : s.Models M) (i : NodeId) :
    M (s.resolve i) = M i := by
  rw [hM.eq_subst hs (s.resolve i), denote_resolve hs, ← hM.eq_subst hs i]

/-- Only the types of the nodes that are there matter. -/
theorem Models.congr {M' : NodeId → Ty} (hs : s.WellFormed) (hM : s.Models M)
    (h : ∀ i < s.size, M i = M' i) : s.Models M' := by
  intro i n hn
  exact (hM i n hn).congr (h i (lt_size_of_node? hn))
    fun j hj => h j (hs.lt_of_mem_links hn hj)

/-- Models that agree on the unbound variables, and beyond the store, are the same. -/
theorem Models.eq_of_agree {M' : NodeId → Ty} (hs : s.WellFormed) (hM : s.Models M)
    (hM' : s.Models M') (hv : ∀ v id, s.node? v = some (.var id none) → M v = M' v)
    (ho : ∀ i, s.size ≤ i → M i = M' i) (i : NodeId) : M i = M' i := by
  induction i using hs.induction with
  | step i ih =>
    cases hn : s.node? i with
    | none => exact ho i (node?_eq_none_iff.1 hn)
    | some n =>
      have hm := hM i n hn
      have hm' := hM' i n hn
      have hj : ∀ j ∈ n.links, M j = M' j := fun j hj => ih j ⟨n, hn, hj⟩
      rcases n with t | ⟨id, _ | j⟩ | ⟨result, params⟩
      · exact hm.trans hm'.symm
      · exact hv i id hn
      · exact hm.trans ((hj j (by simp)).trans hm'.symm)
      · have hp : params.map M = params.map M' :=
          List.map_congr_left fun p hp => hj p (by simp [hp])
        refine hm.trans (Eq.trans ?_ hm'.symm)
        rw [hp, hj result (by simp)]

/-! ### Stores that only grow more definite -/

/-- No node is lost or turned into another kind, and every model is a model from before. -/
structure Extends (s s' : TypeStore) : Prop where
  /-- Nodes stay what they are, but for bindings. -/
  kept : ∀ i n, s.node? i = some n → ∃ n', s'.node? i = some n' ∧ n.Kept n'
  /-- No model is added. -/
  models : ∀ M, s'.Models M → s.Models M

namespace Extends

theorem refl (s : TypeStore) : s.Extends s := ⟨fun _ n h => ⟨n, h, .same n⟩, fun _ h => h⟩

theorem trans (h : s.Extends s') (h' : s'.Extends s'') : s.Extends s'' := by
  refine ⟨fun i n hn => ?_, fun M hM => h.models M (h'.models M hM)⟩
  obtain ⟨n', hn', hk⟩ := h.kept i n hn
  obtain ⟨n'', hn'', hk'⟩ := h'.kept i n' hn'
  exact ⟨n'', hn'', hk.trans hk'⟩

theorem size_le (h : s.Extends s') : s.size ≤ s'.size := by
  by_contra hlt
  obtain ⟨n, hn⟩ := exists_node_of_lt (Nat.not_le.1 hlt)
  obtain ⟨n', hn', -⟩ := h.kept _ n hn
  exact Nat.lt_irrefl _ (lt_size_of_node? hn')

theorem constant (h : s.Extends s') {t : BaseType} (hn : s.node? i = some (.constant t)) :
    s'.node? i = some (.constant t) := by
  obtain ⟨n', hn', hk⟩ := h.kept i _ hn
  cases hk
  exact hn'

theorem function (h : s.Extends s') {result : NodeId} {params : List NodeId}
    (hn : s.node? i = some (.function result params)) :
    s'.node? i = some (.function result params) := by
  obtain ⟨n', hn', hk⟩ := h.kept i _ hn
  cases hk
  exact hn'

/-- Afterwards a node stands for an instance of what it stood for. -/
theorem denote_eq (h : s.Extends s') (hs : s.WellFormed) (hs' : s'.WellFormed) (i : NodeId) :
    s'.denote i = (s.denote i).subst s'.denote :=
  (h.models _ (models_denote hs')).eq_subst hs i

end Extends

/-- The same nodes, only more definite. -/
structure Refines (s s' : TypeStore) : Prop extends Extends s s' where
  /-- The store stays well formed. -/
  wellFormed : s'.WellFormed
  /-- No node is added. -/
  size_eq : s'.size = s.size
  /-- No variable is added. -/
  varCount_eq : s'.varCount = s.varCount

namespace Refines

theorem refl (hs : s.WellFormed) : s.Refines s := ⟨.refl s, hs, rfl, rfl⟩

theorem trans (h : s.Refines s') (h' : s'.Refines s'') : s.Refines s'' :=
  ⟨h.toExtends.trans h'.toExtends, h'.wellFormed, h'.size_eq.trans h.size_eq,
    h'.varCount_eq.trans h.varCount_eq⟩

/-- What is unbound afterwards was unbound before. -/
theorem unbound (h : s.Refines s') {v : NodeId} {id : Nat}
    (hv : s'.node? v = some (.var id none)) : s.node? v = some (.var id none) := by
  have hlt := lt_size_of_node? hv
  rw [h.size_eq] at hlt
  obtain ⟨n, hn⟩ := exists_node_of_lt hlt
  obtain ⟨n', hn', hk⟩ := h.kept v n hn
  rw [hv] at hn'
  cases hn'
  cases hk
  exact hn

end Refines

/-! ### Binding a variable -/

theorem extends_set {id : Nat} {b : Option NodeId} {t : NodeId}
    (hn : s.node? i = some (.var id b))
    (hm : ∀ M, (s.set i (.var id (some t))).Models M → s.Models M) :
    s.Extends (s.set i (.var id (some t))) := by
  refine ⟨fun k n hk => ?_, hm⟩
  by_cases hik : i = k
  · subst hik
    rw [hn] at hk
    cases hk
    exact ⟨_, node?_set_self (lt_size_of_node? hn) _, .bound id b t⟩
  · exact ⟨n, by rw [node?_set_ne hik, hk], .same n⟩

theorem link_set {id : Nat} {t k l : NodeId} (hi : i < s.size)
    (h : (s.set i (.var id (some t))).Link k l) : (k = i ∧ l = t) ∨ (k ≠ i ∧ s.Link k l) := by
  obtain ⟨n, hn, hl⟩ := h
  by_cases hik : i = k
  · subst hik
    rw [node?_set_self hi] at hn
    cases hn
    exact .inl ⟨rfl, by simpa using hl⟩
  · rw [node?_set_ne hik] at hn
    exact .inr ⟨Ne.symm hik, n, hn, hl⟩

theorem closed_set {id : Nat} {t : NodeId} (hs : s.WellFormed) (hi : i < s.size)
    (ht : t < s.size) : ∀ k l, (s.set i (.var id (some t))).Link k l →
      l < (s.set i (.var id (some t))).size := by
  intro k l h
  rw [size_set]
  rcases link_set hi h with ⟨-, rfl⟩ | ⟨-, h⟩
  · exact ht
  · exact hs.closed k l h

/-- Binding an unbound variable keeps the models that give it the type of its target. -/
theorem bind_models_iff {v t : NodeId} {id : Nat} (hv : s.node? v = some (.var id none)) :
    (s.set v (.var id (some t))).Models M ↔ s.Models M ∧ M v = M t := by
  have hself := node?_set_self (lt_size_of_node? hv) (.var id (some t))
  constructor
  · intro hM
    refine ⟨fun i n hn => ?_, hM v _ hself⟩
    by_cases hvi : v = i
    · subst hvi
      rw [hv] at hn
      cases hn
      trivial
    · exact hM i n (by rw [node?_set_ne hvi, hn])
  · rintro ⟨hM, heq⟩ i n hn
    by_cases hvi : v = i
    · subst hvi
      rw [hself] at hn
      cases hn
      exact heq
    · rw [node?_set_ne hvi] at hn
      exact hM i n hn

/-- What appears in the type of a node appears in that of every node with a link to it. -/
theorem mentions_of_link {k l v : NodeId} (hs : s.WellFormed) (h : s.Link k l)
    (hl : (s.denote l).Mentions v) : (s.denote k).Mentions v := by
  obtain ⟨n, hn, hmem⟩ := h
  rcases n with b | ⟨id, _ | j⟩ | ⟨result, params⟩
  · simp at hmem
  · simp at hmem
  · rw [denote_bound hs hn]
    rw [Node.links_bound, List.mem_singleton] at hmem
    rwa [← hmem]
  · rw [denote_function hs hn, Ty.mentions_fn, ← List.map_cons]
    exact ⟨_, List.mem_map_of_mem hmem, hl⟩

/-- Binding an unbound variable to a type that does not mention it makes no circle: every node
whose type mentions the variable moves above the target. -/
theorem bind_wellFormed {v t : NodeId} {id : Nat} (hs : s.WellFormed)
    (hv : s.node? v = some (.var id none)) (ht : t < s.size)
    (hm : ¬ (s.denote t).Mentions v) : (s.set v (.var id (some t))).WellFormed := by
  classical
  have hlt := lt_size_of_node? hv
  refine .of_rank (closed_set hs hlt ht)
    (fun i => s.rank i + if (s.denote i).Mentions v then s.rank t + 1 else 0) fun k l h => ?_
  rcases link_set hlt h with ⟨rfl, rfl⟩ | ⟨-, h⟩
  · -- the new link leaves the variable, which has moved, for the target, which has not
    have hk : (s.denote k).Mentions k := by rw [denote_unbound hv, Ty.mentions_var]
    simp only [hk, hm, if_true, if_false]
    omega
  · have hr := hs.rank_lt h
    by_cases hl : (s.denote l).Mentions v
    · have hk := mentions_of_link hs h hl
      simp only [hl, hk, if_true]
      omega
    · simp only [hl, if_false]
      omega

/-! ### Shortening the way to a representative -/

/-- Only bindings differ, and they lead to the same representatives. -/
structure SameTypes (s s' : TypeStore) : Prop extends Refines s s' where
  /-- No model is lost. -/
  models_of : ∀ M, s.Models M → s'.Models M
  /-- Representatives stay. -/
  resolve_eq : ∀ i, s'.resolve i = s.resolve i

namespace SameTypes

theorem refl (hs : s.WellFormed) : s.SameTypes s := ⟨.refl hs, fun _ h => h, fun _ => rfl⟩

theorem trans (h : s.SameTypes s') (h' : s'.SameTypes s'') : s.SameTypes s'' :=
  ⟨h.toRefines.trans h'.toRefines, fun M hM => h'.models_of M (h.models_of M hM),
    fun i => (h'.resolve_eq i).trans (h.resolve_eq i)⟩

theorem models_iff (h : s.SameTypes s') : s'.Models M ↔ s.Models M :=
  ⟨h.models M, h.models_of M⟩

end SameTypes

section Rebind

variable {id : Nat} (hs : s.WellFormed) (hn : s.node? i = some (.var id (some j)))

include hs hn

theorem ne_resolve_of_bound : i ≠ s.resolve j := by
  intro h
  have hroot := root_resolve hs j
  rw [← h] at hroot
  exact hroot id j hn

/-- Ranks still fall: the representative ranks no higher than the old target. -/
theorem rebind_wellFormed : (s.set i (.var id (some (s.resolve j)))).WellFormed := by
  have hi := lt_size_of_node? hn
  refine .of_rank (closed_set hs hi (resolve_lt_size hs (hs.lt_of_bound hn))) s.rank ?_
  intro k l h
  rcases link_set hi h with ⟨rfl, rfl⟩ | ⟨-, h⟩
  · exact (rank_resolve_le hs j).trans_lt (hs.rank_lt_of_bound hn)
  · exact hs.rank_lt h

theorem rebind_resolve (k : NodeId) :
    (s.set i (.var id (some (s.resolve j)))).resolve k = s.resolve k := by
  have hwf := rebind_wellFormed hs hn
  -- along the old way: it ends where it did, and the rebound variable takes a shorter one
  refine resolve_induction
    (P := fun k r => (s.set i (.var id (some (s.resolve j)))).resolve k = r) hs ?_ ?_ k
  · intro k hk
    have hik : i ≠ k := by
      rintro rfl
      exact hk id j hn
    exact resolve_of_root fun id' j' h => hk id' j' (by rwa [node?_set_ne hik] at h)
  · intro k id' j' hk ih
    by_cases hik : i = k
    · subst hik
      rw [hn] at hk
      cases hk
      rw [resolve_of_bound hwf (node?_set_self (lt_size_of_node? hn) _)]
      refine resolve_of_root fun id' j' h => root_resolve hs j id' j' ?_
      rwa [node?_set_ne (ne_resolve_of_bound hs hn)] at h
    · rw [resolve_of_bound hwf ((node?_set_ne hik _).trans hk), ih]

theorem rebind_models_iff : (s.set i (.var id (some (s.resolve j)))).Models M ↔ s.Models M := by
  have hself := node?_set_self (lt_size_of_node? hn) (.var id (some (s.resolve j)))
  have hwf := rebind_wellFormed hs hn
  have hres := rebind_resolve hs hn
  constructor
  · intro hM k n hk
    by_cases hik : i = k
    · subst hik
      rw [hn] at hk
      cases hk
      change M i = M j
      rw [← hM.resolve hwf i, ← hM.resolve hwf j, hres, hres, resolve_of_bound hs hn]
    · exact hM k n (by rw [node?_set_ne hik, hk])
  · intro hM k n hk
    by_cases hik : i = k
    · subst hik
      rw [hself] at hk
      cases hk
      change M i = M (s.resolve j)
      rw [hM.resolve hs j]
      exact hM i _ hn
    · rw [node?_set_ne hik] at hk
      exact hM k n hk

/-- A bound variable may be bound to its representative instead. -/
theorem rebind_sameTypes : s.SameTypes (s.set i (.var id (some (s.resolve j)))) where
  toExtends := extends_set hn fun _ => (rebind_models_iff hs hn).1
  wellFormed := rebind_wellFormed hs hn
  size_eq := size_set _ _ _
  varCount_eq := varCount_set _ _ _
  models_of _ := (rebind_models_iff hs hn).2
  resolve_eq := rebind_resolve hs hn

end Rebind

theorem compressWithin_sameTypes : ∀ (k : Nat) {i : NodeId} {s : TypeStore}, s.WellFormed →
    s.SameTypes (compressWithin (s.resolve i) k i s) := by
  intro k
  induction k with
  | zero => exact fun hs => .refl hs
  | succ k ih =>
    intro i s hs
    rw [compressWithin]
    split
    · exact .refl hs
    · split
      · rename_i id j hn
        have h := rebind_sameTypes hs hn
        rw [resolve_of_bound hs hn]
        have h' := ih (i := j) h.wellFormed
        rw [h.resolve_eq] at h'
        exact h.trans h'
      · exact .refl hs

/-- Asking for a representative changes no type. -/
theorem find_sameTypes (hs : s.WellFormed) (i : NodeId) : s.SameTypes (s.find i).2 :=
  compressWithin_sameTypes s.size hs

end TypeStore

end SimpleLang
