import SimpleLang.Proofs.Types.Models

/-!
# Ways along bindings

Who follows bindings from node to node goes a way.  To ask for representatives it is enough that
every way ends (`TypeStore.BindingsEnd`): what function types are made of does not matter, not even
whether it is there or runs in a circle.

So all that is known of representatives in well-formed stores can be used for such a store, through
its *bare* store, in which function types have lost their components.  The bare store has the same
bindings and the same representatives (`bare_resolve`), it is shortened in the same way
(`bare_find`), and it is well formed if every way ends (`BindingsEnd.wellFormed_bare`).

## Main definitions

* `TypeStore.Binds s i j` : node `i` is a variable that is bound to `j`.
* `TypeStore.Leads s i k` : node `k` is on the way from `i`.
* `TypeStore.BindingsEnd s` : from every node the way comes to an end, at a node that is there.
* `TypeStore.bare s` : the store without the components of function types.
-/

namespace SimpleLang

namespace Node

/-- The node without its components. -/
def bare : Node → Node
  | .constant t => .constant t
  | .var id binding => .var id binding
  | .function _ _ => .constant .int

theorem bare_eq_var_iff {n : Node} {id : Nat} {b : Option NodeId} :
    n.bare = .var id b ↔ n = .var id b := by
  cases n <;> simp [bare]

end Node

namespace TypeStore

variable {s s' : TypeStore} {i j k : NodeId} {id : Nat}

/-! ### Variables that are bound -/

/-- Whether a node is a variable that is bound. -/
def isBound (s : TypeStore) (i : NodeId) : Bool :=
  match s.node? i with
  | some (.var _ (some _)) => true
  | _ => false

theorem isBound_iff : s.isBound i = true ↔ ∃ id j, s.node? i = some (.var id (some j)) := by
  rw [isBound]
  split
  · rename_i id j h
    simp [h]
  · rename_i h
    simp only [Bool.false_eq_true, false_iff, not_exists]
    exact fun id j hn => h id j hn

/-- The variables that are bound. -/
def boundVars (s : TypeStore) : Finset NodeId := {v ∈ Finset.range s.size | s.isBound v}

theorem mem_boundVars : i ∈ s.boundVars ↔ ∃ id j, s.node? i = some (.var id (some j)) := by
  rw [boundVars, Finset.mem_filter, Finset.mem_range, isBound_iff]
  refine and_iff_right_of_imp ?_
  rintro ⟨id, j, hi⟩
  exact lt_size_of_node? hi

theorem isBound_eq_false_iff : s.isBound i = false ↔ s.Root i := by
  rw [← Bool.not_eq_true, isBound_iff]
  simp only [not_exists, Root, ne_eq]

instance (s : TypeStore) (i : NodeId) : Decidable (s.Root i) :=
  decidable_of_iff _ isBound_eq_false_iff

/-! ### Ways -/

/-- Node `i` is a variable that is bound to `j`. -/
def Binds (s : TypeStore) (i j : NodeId) : Prop := ∃ id, s.node? i = some (.var id (some j))

/-- Node `k` is on the way from `i`, which begins at `i` itself. -/
def Leads (s : TypeStore) : NodeId → NodeId → Prop := Relation.ReflTransGen s.Binds

/-- From every node the way comes to an end, at a node that is there. -/
def BindingsEnd (s : TypeStore) : Prop := ∀ i < s.size, ∃ r < s.size, s.Leads i r ∧ s.Root r

theorem Root.not_binds (h : s.Root i) : ¬ s.Binds i j := fun ⟨id, hn⟩ => h id j hn

theorem Binds.unique (h : s.Binds i j) (h' : s.Binds i k) : j = k := by
  obtain ⟨id, hn⟩ := h
  obtain ⟨id', hn'⟩ := h'
  rw [hn] at hn'
  cases hn'
  rfl

theorem Binds.lt_size (h : s.Binds i j) : i < s.size := by
  obtain ⟨id, hn⟩ := h
  exact lt_size_of_node? hn

theorem leads_iff_of_root (h : s.Root i) : s.Leads i k ↔ k = i := by
  refine ⟨fun hk => ?_, fun hk => hk ▸ .refl⟩
  rcases hk.cases_head with heq | ⟨j, hj, -⟩
  · exact heq.symm
  · exact absurd hj h.not_binds

theorem leads_iff_of_binds (h : s.Binds i j) : s.Leads i k ↔ k = i ∨ s.Leads j k := by
  constructor
  · intro hk
    rcases hk.cases_head with heq | ⟨j', hj', hk⟩
    · exact .inl heq.symm
    · exact .inr (h.unique hj' ▸ hk)
  · rintro (rfl | hk)
    · exact .refl
    · exact .head h hk

/-- However few bindings are followed, one stays on the way. -/
theorem leads_resolveWithin (s : TypeStore) : ∀ (n : Nat) (i : NodeId),
    s.Leads i (s.resolveWithin n i)
  | 0, _ => .refl
  | n + 1, i => by
    rw [resolveWithin]
    split
    · rename_i id j hn
      exact .head ⟨id, hn⟩ (leads_resolveWithin s n j)
    · exact .refl

theorem leads_resolve (s : TypeStore) (i : NodeId) : s.Leads i (s.resolve i) :=
  leads_resolveWithin s s.size i

/-- A way that does not come past a node is the same whatever is put in the place of the node. -/
theorem leads_set_iff {n : Node} (h : ¬ s.Leads j i) : (s.set i n).Leads j k ↔ s.Leads j k := by
  have hne : ∀ {l}, s.Leads j l → i ≠ l := by
    rintro l hl rfl
    exact h hl
  constructor <;> intro hk
  · induction hk with
    | refl => exact .refl
    | @tail l k _ hlk ih =>
      obtain ⟨id, hn⟩ := hlk
      rw [node?_set_ne (hne ih)] at hn
      exact ih.tail ⟨id, hn⟩
  · induction hk with
    | refl => exact .refl
    | @tail l k hl hlk ih =>
      obtain ⟨id, hn⟩ := hlk
      exact ih.tail ⟨id, (node?_set_ne (hne hl) n).trans hn⟩

/-! ### The bare store -/

/-- The store without the components of function types. -/
def bare (s : TypeStore) : TypeStore := { s with nodes := s.nodes.map Node.bare }

@[simp] theorem size_bare (s : TypeStore) : s.bare.size = s.size := Array.size_map

theorem node?_bare (s : TypeStore) (i : NodeId) : s.bare.node? i = (s.node? i).map Node.bare :=
  Array.getElem?_map

@[simp] theorem node?_bare_eq_var_iff {b : Option NodeId} :
    s.bare.node? i = some (.var id b) ↔ s.node? i = some (.var id b) := by
  simp only [node?_bare, Option.map_eq_some_iff, Node.bare_eq_var_iff, exists_eq_right]

theorem root_bare_iff : s.bare.Root i ↔ s.Root i := by
  simp only [Root, ne_eq, node?_bare_eq_var_iff]

/-- In the bare store there are no links but bindings. -/
theorem link_bare_iff : s.bare.Link i j ↔ s.Binds i j := by
  constructor
  · rintro ⟨n, hn, hj⟩
    rw [node?_bare] at hn
    obtain ⟨m, hm, rfl⟩ := Option.map_eq_some_iff.1 hn
    rcases m with t | ⟨id, _ | l⟩ | ⟨result, params⟩
    · simp [Node.bare] at hj
    · simp [Node.bare] at hj
    · rw [Node.bare, Node.links_bound, List.mem_singleton] at hj
      exact ⟨id, hj ▸ hm⟩
    · simp [Node.bare] at hj
  · rintro ⟨id, hn⟩
    exact ⟨_, node?_bare_eq_var_iff.2 hn, by simp⟩

theorem bare_set (s : TypeStore) (i : NodeId) (n : Node) :
    (s.set i n).bare = s.bare.set i n.bare := by
  rw [bare, set, Array.map_setIfInBounds]
  rfl

theorem bare_resolveWithin (s : TypeStore) : ∀ (n : Nat) (i : NodeId),
    s.bare.resolveWithin n i = s.resolveWithin n i := by
  intro n
  induction n with
  | zero => exact fun _ => rfl
  | succ n ih =>
    intro i
    by_cases hr : s.Root i
    · rw [resolveWithin_of_root hr, resolveWithin_of_root (root_bare_iff.2 hr)]
    · obtain ⟨id, j, hn⟩ := exists_bound_of_not_root hr
      rw [resolveWithin, resolveWithin, hn, node?_bare_eq_var_iff.2 hn]
      exact ih j

@[simp] theorem bare_resolve (s : TypeStore) (i : NodeId) : s.bare.resolve i = s.resolve i := by
  rw [resolve, resolve, size_bare, bare_resolveWithin]

theorem bare_compressWithin (root : NodeId) : ∀ (n : Nat) (i : NodeId) (s : TypeStore),
    (compressWithin root n i s).bare = compressWithin root n i s.bare := by
  intro n
  induction n with
  | zero => exact fun _ _ => rfl
  | succ n ih =>
    intro i s
    by_cases hr : s.Root i
    · rw [compressWithin_of_root hr, compressWithin_of_root (root_bare_iff.2 hr)]
    · obtain ⟨id, j, hn⟩ := exists_bound_of_not_root hr
      rw [compressWithin, compressWithin, hn, node?_bare_eq_var_iff.2 hn]
      split
      · rfl
      · exact (ih j _).trans (by rw [bare_set, Node.bare])

theorem bare_find (s : TypeStore) (i : NodeId) : (s.bare.find i).2 = (s.find i).2.bare := by
  rw [find, find, bare_resolve, size_bare, bare_compressWithin]

/-! ### Stores in which every way ends -/

/-- From a circle no way leads out. -/
theorem Leads.circular (h : s.Leads i k) (hi : Relation.TransGen s.Binds i i) :
    Relation.TransGen s.Binds k k := by
  induction h with
  | refl => exact hi
  | @tail l k _ hlk ih =>
    obtain ⟨k', hlk', hkl⟩ := Relation.TransGen.head'_iff.1 ih
    rw [← hlk.unique hlk'] at hkl
    exact .tail' hkl hlk

namespace BindingsEnd

theorem not_circular (hs : s.BindingsEnd) (i : NodeId) : ¬ Relation.TransGen s.Binds i i := by
  intro hi
  obtain ⟨j, hj, -⟩ := Relation.TransGen.head'_iff.1 hi
  obtain ⟨r, -, hway, hroot⟩ := hs i hj.lt_size
  obtain ⟨k, hk, -⟩ := Relation.TransGen.head'_iff.1 (hway.circular hi)
  exact hroot.not_binds hk

theorem lt_of_binds (hs : s.BindingsEnd) (h : s.Binds i j) : j < s.size := by
  obtain ⟨r, hr, hway, hroot⟩ := hs i h.lt_size
  rcases (leads_iff_of_binds h).1 hway with rfl | hway
  · exact absurd h hroot.not_binds
  · rcases hway.cases_head with rfl | ⟨k, hk, -⟩
    · exact hr
    · exact hk.lt_size

/-- No way comes back. -/
theorem not_leads (hs : s.BindingsEnd) (h : s.Binds i j) : ¬ s.Leads j i :=
  fun hji => hs.not_circular i (.head' h hji)

theorem wellFormed_bare (hs : s.BindingsEnd) : s.bare.WellFormed where
  closed _ _ hij := size_bare s ▸ hs.lt_of_binds (link_bare_iff.1 hij)
  acyclic i hi := hs.not_circular i (Relation.TransGen.mono (fun _ _ => link_bare_iff.1) i i hi)

end BindingsEnd

theorem bindingsEnd_of_resolve
    (h : ∀ i < s.size, s.resolve i < s.size ∧ s.Root (s.resolve i)) : s.BindingsEnd :=
  fun i hi => ⟨s.resolve i, (h i hi).1, leads_resolve s i, (h i hi).2⟩

theorem WellFormed.bindingsEnd (hs : s.WellFormed) : s.BindingsEnd :=
  bindingsEnd_of_resolve fun i hi => ⟨resolve_lt_size hs hi, root_resolve hs i⟩

theorem bindingsEnd_of_wellFormed_bare (hs : s.bare.WellFormed) : s.BindingsEnd := by
  refine bindingsEnd_of_resolve fun i hi => ⟨?_, ?_⟩
  · simpa using resolve_lt_size hs (i := i) (by simpa using hi)
  · simpa [root_bare_iff] using root_resolve hs i

namespace BindingsEnd

theorem root_resolve (hs : s.BindingsEnd) (i : NodeId) : s.Root (s.resolve i) := by
  simpa [root_bare_iff] using TypeStore.root_resolve hs.wellFormed_bare i

theorem resolve_lt_size (hs : s.BindingsEnd) (hi : i < s.size) : s.resolve i < s.size := by
  simpa using TypeStore.resolve_lt_size hs.wellFormed_bare (i := i) (by simpa using hi)

theorem resolve_of_binds (hs : s.BindingsEnd) (h : s.Binds i j) : s.resolve i = s.resolve j := by
  obtain ⟨id, hn⟩ := h
  simpa using resolve_of_bound hs.wellFormed_bare (node?_bare_eq_var_iff.2 hn)

/-- All nodes on a way have one representative. -/
theorem resolve_of_leads (hs : s.BindingsEnd) (h : s.Leads i k) : s.resolve k = s.resolve i := by
  induction h with
  | refl => rfl
  | tail _ hb ih => rw [← hs.resolve_of_binds hb, ih]

end BindingsEnd

instance (s : TypeStore) : Decidable s.BindingsEnd :=
  decidable_of_iff (∀ i < s.size, s.resolve i < s.size ∧ s.Root (s.resolve i))
    ⟨bindingsEnd_of_resolve, fun hs i hi => ⟨hs.resolve_lt_size hi, hs.root_resolve i⟩⟩

namespace BindingsEnd

/-- Asking for a representative leaves every way with an end. -/
theorem find (hs : s.BindingsEnd) (i : NodeId) : (s.find i).2.BindingsEnd :=
  bindingsEnd_of_wellFormed_bare
    (bare_find s i ▸ (find_sameTypes hs.wellFormed_bare i).wellFormed)

theorem resolve_find (hs : s.BindingsEnd) (i k : NodeId) :
    (s.find i).2.resolve k = s.resolve k := by
  have h := (find_sameTypes hs.wellFormed_bare i).resolve_eq k
  rwa [bare_find, bare_resolve, bare_resolve] at h

end BindingsEnd

/-! ### How long a way is -/

/-- Bindings lead along links to the representative. -/
theorem links_resolve (hs : s.WellFormed) (i : NodeId) :
    Relation.ReflTransGen s.Link i (s.resolve i) :=
  resolve_induction (P := Relation.ReflTransGen s.Link) hs (fun _ _ => .refl)
    (fun _ _ _ hn h => .head ⟨_, hn, by simp⟩ h) i

/-- Where all links lead along ways that were there before, no rank rises. -/
theorem rank_le_of_links (hsize : s'.size = s.size)
    (h : ∀ k l, s'.Link k l → Relation.ReflTransGen s.Link k l) (i : NodeId) :
    s'.rank i ≤ s.rank i := by
  classical
  apply Finset.card_le_card
  intro k hk
  obtain ⟨hk, hik⟩ := Finset.mem_filter.1 hk
  rw [hsize] at hk
  exact Finset.mem_filter.2 ⟨hk, Relation.reflTransGen_closed h i k hik⟩

theorem rank_rebind_le (hs : s.WellFormed) (hn : s.node? i = some (.var id (some j)))
    (k : NodeId) : (s.set i (.var id (some (s.resolve j)))).rank k ≤ s.rank k := by
  refine rank_le_of_links (size_set _ _ _) (fun k l h => ?_) k
  rcases link_set (lt_size_of_node? hn) h with ⟨rfl, rfl⟩ | ⟨-, h⟩
  · exact .head ⟨_, hn, by simp⟩ (links_resolve hs j)
  · exact .single h

/-- How many nodes are on the way from a node, itself included. -/
noncomputable def wayLength (s : TypeStore) (i : NodeId) : Nat := s.bare.rank i

theorem wayLength_le_size (s : TypeStore) (i : NodeId) : s.wayLength i ≤ s.size :=
  size_bare s ▸ s.bare.rank_le_size i

theorem wayLength_pos (hi : i < s.size) : 0 < s.wayLength i := rank_pos (by simpa using hi)

theorem BindingsEnd.wayLength_lt (hs : s.BindingsEnd) (h : s.Binds i j) :
    s.wayLength j < s.wayLength i :=
  hs.wellFormed_bare.rank_lt (link_bare_iff.2 h)

/-- One turn of the loop that shortens a way: a variable is bound to its representative.  Ways end
where they did and no way is longer than before. -/
structure Rebound (s s' : TypeStore) : Prop where
  /-- Every way ends. -/
  bindingsEnd : s'.BindingsEnd
  /-- Representatives are the same. -/
  resolve_eq : ∀ k, s'.resolve k = s.resolve k
  /-- No way is longer. -/
  wayLength_le : ∀ k, s'.wayLength k ≤ s.wayLength k

theorem BindingsEnd.rebound (hs : s.BindingsEnd) (hn : s.node? i = some (.var id (some j))) :
    s.Rebound (s.set i (.var id (some (s.resolve j)))) := by
  have hwf := hs.wellFormed_bare
  have hbare := node?_bare_eq_var_iff.2 hn
  have heq : (s.set i (.var id (some (s.resolve j)))).bare =
      s.bare.set i (.var id (some (s.bare.resolve j))) := by rw [bare_set, bare_resolve, Node.bare]
  have hsame := rebind_sameTypes hwf hbare
  rw [← heq] at hsame
  refine ⟨bindingsEnd_of_wellFormed_bare hsame.wellFormed, fun k => ?_, fun k => ?_⟩
  · simpa using hsame.resolve_eq k
  · rw [wayLength, heq]
    exact rank_rebind_le hwf hbare k

end TypeStore

end SimpleLang
