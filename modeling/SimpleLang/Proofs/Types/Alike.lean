import SimpleLang.Proofs.Types.Access

/-!
# Stores that differ in bindings only

Asking for a representative shortens ways, so a store in which that has happened and one in which it
has not differ in what variables are bound to.  They are *alike* (`TypeStore.Alike`): nodes are the
same but for the targets of bindings, the same variables are bound, and representatives are the same
nodes.  Alike stores give the same answers to every question, and stay alike when a variable is
bound in both (`bind_resolve`) or a node is added to both (`push_resolve`).

So the access that never shortens a way (`Access.plain`) simulates the store's own.
-/

namespace SimpleLang

namespace Node

/-- The same node, but for what a bound variable is bound to. -/
inductive Alike : Node → Node → Prop
  /-- The very same node. -/
  | same (n : Node) : Alike n n
  /-- A variable that is bound, perhaps to another node. -/
  | bound (id : Nat) (target target' : NodeId) :
    Alike (.var id (some target)) (.var id (some target'))

namespace Alike

variable {n n' n'' : Node}

theorem symm (h : n.Alike n') : n'.Alike n := by
  cases h with
  | same => exact .same n
  | bound id j j' => exact .bound id j' j

theorem trans (h : n.Alike n') (h' : n'.Alike n'') : n.Alike n'' := by
  cases h with
  | same => exact h'
  | bound id j j' =>
    cases h' with
    | same => exact .bound id j j'
    | bound _ _ j'' => exact .bound id j j''

end Alike

end Node

namespace TypeStore

variable {s s' s'' : TypeStore} {i j v t : NodeId} {id : Nat}

/-- The stores differ in the targets of bindings only, and the representatives are the same. -/
structure Alike (s s' : TypeStore) : Prop where
  /-- There are as many nodes. -/
  size_eq : s'.size = s.size
  /-- There are as many variables. -/
  varCount_eq : s'.varCount = s.varCount
  /-- Nodes are the same but for the targets of bindings. -/
  nodes : ∀ i n, s.node? i = some n → ∃ n', s'.node? i = some n' ∧ n.Alike n'
  /-- Representatives are the same. -/
  resolve_eq : ∀ i, s'.resolve i = s.resolve i

/-! ### After binding a variable, and with one more node -/

/-- What the variable represented is represented by its target. -/
theorem bind_resolve (hs : s.WellFormed) (hv : s.node? v = some (.var id none))
    (ht : t < s.size) (hr : s.Root t) (hm : ¬ (s.denote t).Mentions v) (k : NodeId) :
    (s.set v (.var id (some t))).resolve k = if s.resolve k = v then t else s.resolve k := by
  have hwf := bind_wellFormed hs hv ht hm
  have hne : v ≠ t := by
    rintro rfl
    exact hm (by rw [denote_unbound hv, Ty.mentions_var])
  have hself := node?_set_self (lt_size_of_node? hv) (.var id (some t))
  have hroot : ∀ {k}, v ≠ k → s.Root k → (s.set v (.var id (some t))).Root k :=
    fun hk hr id' j h => hr id' j (by rwa [node?_set_ne hk] at h)
  -- along the way from `k`: it ends at `v`, and goes on to `t` now, or somewhere else, as before
  refine resolve_induction
    (P := fun k r => (s.set v (.var id (some t))).resolve k = if r = v then t else r) hs ?_ ?_ k
  · intro k hk
    by_cases hvk : v = k
    · subst hvk
      rw [resolve_of_bound hwf hself, resolve_of_root (hroot hne hr), if_pos rfl]
    · rw [resolve_of_root (hroot hvk hk), if_neg (Ne.symm hvk)]
  · intro k id' j hk ih
    have hvk : v ≠ k := by
      rintro rfl
      rw [hv] at hk
      cases hk
    rw [resolve_of_bound hwf ((node?_set_ne hvk _).trans hk), ih]

/-- A node that is added represents itself. -/
theorem push_resolve {n : Node} {c : Nat} (hs : s.WellFormed) (hn : ∀ j ∈ n.links, j < s.size)
    (hroot : ∀ id j, n ≠ .var id (some j)) (k : NodeId) :
    (s.push n c).resolve k = s.resolve k := by
  have hwf : (s.push n c).WellFormed := wellFormed_push hs hn
  refine resolve_induction (P := fun k r => (s.push n c).resolve k = r) hs ?_ ?_ k
  · intro k hk
    refine resolve_of_root fun id j h => ?_
    rw [node?_push] at h
    split at h
    · exact hroot id j (Option.some.inj h)
    · exact hk id j h
  · intro k id j hk ih
    rw [resolve_of_bound hwf ((node?_push_lt (lt_size_of_node? hk) n c).trans hk), ih]

namespace Alike

theorem refl (s : TypeStore) : s.Alike s := ⟨rfl, rfl, fun _ n h => ⟨n, h, .same n⟩, fun _ => rfl⟩

theorem symm (h : s.Alike s') : s'.Alike s where
  size_eq := h.size_eq.symm
  varCount_eq := h.varCount_eq.symm
  nodes i n' hn' := by
    have hi := lt_size_of_node? hn'
    rw [h.size_eq] at hi
    obtain ⟨n, hn⟩ := exists_node_of_lt hi
    obtain ⟨m, hm, hnm⟩ := h.nodes i n hn
    rw [hn'] at hm
    cases hm
    exact ⟨n, hn, hnm.symm⟩
  resolve_eq i := (h.resolve_eq i).symm

theorem trans (h : s.Alike s') (h' : s'.Alike s'') : s.Alike s'' where
  size_eq := h'.size_eq.trans h.size_eq
  varCount_eq := h'.varCount_eq.trans h.varCount_eq
  nodes i n hn := by
    obtain ⟨n', hn', hnn'⟩ := h.nodes i n hn
    obtain ⟨n'', hn'', hn'n''⟩ := h'.nodes i n' hn'
    exact ⟨n'', hn'', hnn'.trans hn'n''⟩
  resolve_eq i := (h'.resolve_eq i).trans (h.resolve_eq i)

/-! ### The same answers -/

theorem node?_of_root (h : s.Alike s') (hr : s.Root i) : s'.node? i = s.node? i := by
  cases hn : s.node? i with
  | none =>
    have hle := node?_eq_none_iff.1 hn
    rw [← h.size_eq] at hle
    exact node?_eq_none_iff.2 hle
  | some n =>
    obtain ⟨n', hn', hnn'⟩ := h.nodes i n hn
    cases hnn' with
    | same => exact hn'
    | bound id j _ => exact absurd hn (hr id j)

theorem root (h : s.Alike s') (hr : s.Root i) : s'.Root i :=
  fun id j hn => hr id j ((h.node?_of_root hr).symm.trans hn)

theorem isUnbound_eq (h : s.Alike s') (hr : s.Root i) : s'.isUnbound i = s.isUnbound i := by
  rw [isUnbound, isUnbound, h.node?_of_root hr]

theorem shown_eq (h : s.Alike s') (i : NodeId) : s'.shown i = s.shown i := by
  unfold shown
  cases hn : s.node? i with
  | none => rw [h.node?_of_root (root_of_size_le (node?_eq_none_iff.1 hn)), hn]
  | some n =>
    obtain ⟨n', hn', hnn'⟩ := h.nodes i n hn
    rw [hn']
    cases hnn' <;> rfl

/-- The types of one store are a model of the other: a bound variable has the type of its
representative in both. -/
theorem models_denote (h : s.Alike s') (hs : s.WellFormed) (hs' : s'.WellFormed) :
    s'.Models s.denote := by
  intro i n' hn'
  have hi := lt_size_of_node? hn'
  rw [h.size_eq] at hi
  obtain ⟨n, hn⟩ := exists_node_of_lt hi
  obtain ⟨m, hm, hnm⟩ := h.nodes i n hn
  rw [hn'] at hm
  cases hm
  cases hnm with
  | same => exact TypeStore.models_denote hs i _ hn
  | bound id j j' =>
    change s.denote i = s.denote j'
    rw [← denote_resolve hs i, ← denote_resolve hs j', ← h.resolve_eq, ← h.resolve_eq,
      resolve_of_bound hs' hn']

theorem denote_eq (h : s.Alike s') (hs : s.WellFormed) (hs' : s'.WellFormed) (i : NodeId) :
    s'.denote i = s.denote i := by
  refine (TypeStore.models_denote hs').eq_of_agree hs' (h.models_denote hs hs') ?_ ?_ i
  · intro v id hv
    have hv' := h.symm.node?_of_root (root_of_unbound hv)
    rw [denote_unbound hv, denote_unbound (hv'.trans hv)]
  · intro j hj
    rw [denote_missing hj, denote_missing (by rw [← h.size_eq]; exact hj)]

theorem display_eq (h : s.Alike s') (hs : s.WellFormed) (hs' : s'.WellFormed) (hi : i < s.size) :
    s'.display i = s.display i := by
  have hshown : s'.shown = s.shown := funext h.shown_eq
  rw [display, display, term_eq hs hi, term_eq hs' (by rw [h.size_eq]; exact hi),
    h.denote_eq hs hs', hshown]

/-- The search for a node looks at representatives only. -/
theorem occursWithin_eq (h : s.Alike s') (hs : s.WellFormed) (v : NodeId) : ∀ (k : Nat)
    (i : NodeId), s'.occursWithin v k i = s.occursWithin v k i := by
  intro k
  induction k with
  | zero => exact fun _ => rfl
  | succ k ih =>
    intro i
    have hk : s'.occursWithin v k = s.occursWithin v k := funext ih
    rw [occursWithin, occursWithin, h.resolve_eq, h.node?_of_root (root_resolve hs i), hk]

theorem occurs_eq (h : s.Alike s') (hs : s.WellFormed) (v i : NodeId) :
    s'.occurs v i = s.occurs v i := by
  rw [occurs, occurs, h.resolve_eq, h.size_eq, h.occursWithin_eq hs]

/-! ### Stores stay alike -/

theorem bind (h : s.Alike s') (hs : s.WellFormed) (hs' : s'.WellFormed)
    (hv : s.node? v = some (.var id none)) (ht : t < s.size) (hr : s.Root t)
    (hm : ¬ (s.denote t).Mentions v) :
    (s.set v (.var id (some t))).Alike (s'.set v (.var id (some t))) := by
  have hv' : s'.node? v = some (.var id none) :=
    (h.node?_of_root (root_of_unbound hv)).trans hv
  have ht' : t < s'.size := by rw [h.size_eq]; exact ht
  refine ⟨by rw [size_set, size_set, h.size_eq], h.varCount_eq, fun i n hn => ?_, fun i => ?_⟩
  · by_cases hvi : v = i
    · subst hvi
      rw [node?_set_self (lt_size_of_node? hv)] at hn
      exact ⟨n, (node?_set_self (lt_size_of_node? hv') _).trans hn, .same n⟩
    · rw [node?_set_ne hvi] at hn ⊢
      exact h.nodes i n hn
  · rw [bind_resolve hs hv ht hr hm, bind_resolve hs' hv' ht' (h.root hr), h.resolve_eq]
    rwa [h.denote_eq hs hs']

theorem push (h : s.Alike s') (hs : s.WellFormed) (hs' : s'.WellFormed) {n : Node} {c : Nat}
    (hn : ∀ j ∈ n.links, j < s.size) (hroot : ∀ id j, n ≠ .var id (some j)) :
    (s.push n c).Alike (s'.push n c) := by
  have hn' : ∀ j ∈ n.links, j < s'.size := fun j hj => by rw [h.size_eq]; exact hn j hj
  refine ⟨by rw [size_push, size_push, h.size_eq], rfl, fun i m hm => ?_, fun i => ?_⟩
  · rw [node?_push] at hm ⊢
    rw [h.size_eq]
    split
    · rename_i hi
      rw [if_pos hi] at hm
      exact ⟨m, hm, .same m⟩
    · rename_i hi
      rw [if_neg hi] at hm
      exact h.nodes i m hm
  · rw [push_resolve hs hn hroot, push_resolve hs' hn' hroot, h.resolve_eq]

end Alike

/-- Shortening ways binds no variable that was unbound, since that would represent itself no more. -/
theorem SameTypes.alike (h : s.SameTypes s') : s.Alike s' where
  size_eq := h.size_eq
  varCount_eq := h.varCount_eq
  nodes i n hn := by
    obtain ⟨n', hn', hk⟩ := h.kept i n hn
    refine ⟨n', hn', ?_⟩
    cases hk with
    | same => exact .same n
    | bound id b j =>
      cases b with
      | some j₀ => exact .bound id j₀ j
      | none =>
        have hroot := root_resolve h.wellFormed i
        rw [h.resolve_eq, resolve_of_root (root_of_unbound hn)] at hroot
        exact absurd hn' (hroot id j)
  resolve_eq := h.resolve_eq

end TypeStore

/-! ### Reading without shortening ways -/

namespace Access

open TypeStore

/-- The store's own operations, but nothing is ever shortened. -/
def plain : Access where
  find i := Unifier.askTypes (·.resolve i)
  isUnbound := standard.isUnbound
  occurs := standard.occurs
  display := standard.display

/-- The stores are alike, both well formed, and the logs the same. -/
structure Alike (i i' : Inference) : Prop where
  /-- The first store is well formed. -/
  left : i.types.WellFormed
  /-- The second store is well formed. -/
  right : i'.types.WellFormed
  /-- The stores are alike. -/
  types : i.types.Alike i'.types
  /-- The logs are the same. -/
  log : i'.log = i.log

/-- **Shortening ways makes no difference to what is read.** -/
theorem plain_simulates : plain.Simulates Alike where
  wellFormed hR := hR.left
  size_eq hR := hR.types.size_eq
  varCount_eq hR := hR.types.varCount_eq
  root_eq hR hr := hR.types.node?_of_root hr
  note e hR := ⟨hR.left, hR.right, hR.types, by rw [hR.log]⟩
  fresh hR := by
    refine ⟨wellFormed_fresh hR.left, wellFormed_fresh hR.right, ?_, hR.log⟩
    rw [fresh_eq, fresh_eq, hR.types.varCount_eq]
    exact hR.types.push hR.left hR.right (by simp) (by simp)
  function {i i' result params} hR hlt := by
    have hlt' : ∀ j ∈ result :: params, j < i'.types.size := fun j hj => by
      rw [hR.types.size_eq]
      exact hlt j hj
    refine ⟨wellFormed_function hR.left hlt, wellFormed_function hR.right hlt', ?_, hR.log⟩
    rw [function_eq, function_eq, hR.types.varCount_eq]
    exact hR.types.push hR.left hR.right hlt (by simp)
  bind {i i' v t id} hR hv ht hr hm := by
    have hv' := (hR.types.node?_of_root (root_of_unbound hv)).trans hv
    refine ⟨bind_wellFormed hR.left hv ht hm, bind_wellFormed hR.right hv'
      (by rw [hR.types.size_eq]; exact ht) ?_, hR.types.bind hR.left hR.right hv ht hr hm, hR.log⟩
    rwa [hR.types.denote_eq hR.left hR.right]
  find {i i' a} hR _ := by
    have hfind := find_sameTypes hR.left a
    have hrun : plain.find a i' = .ok (i'.types.resolve a) i' := rfl
    refine ⟨i', ?_, hfind.wellFormed, hR.right, hfind.alike.symm.trans hR.types, hR.log⟩
    rw [hrun, hR.types.resolve_eq]
  isUnbound {i i' a} hR _ hr := by
    rw [← hR.types.isUnbound_eq hr]
    rfl
  occurs {i i' v t} hR _ _ := by
    rw [← hR.types.occurs_eq hR.left]
    rfl
  display {i i' a} hR ha := by
    rw [← hR.types.display_eq hR.left hR.right ha]
    rfl

end Access

end SimpleLang
