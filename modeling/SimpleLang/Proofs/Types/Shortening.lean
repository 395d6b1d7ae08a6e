import SimpleLang.Proofs.Types.Alike
import SimpleLang.Proofs.Types.Strict

/-!
# What asking for a representative does

`TypeStore.find` gives the representative of a node and binds every variable on the way to it
directly.  It does nothing else (`TypeStore.find_exact`), in every store in which every way along
bindings ends.

The loop binds variables anew while it walks along their bindings.  It never needs a binding that it
has changed: no way comes back, so what is left of the way does not come past the variables behind
(`leads_set_iff`), and the store in which one of them is bound to the representative has the
representatives it had (`BindingsEnd.rebound`).  So the nodes after the loop are told by one
equation (`node?_find`), and all the rest follows from it.

A type whose components run in a circle has no end, and cannot be shown.  What can be shown is said
by `TypeStore.Unfolds`, without a bound on how deep it goes.

## Main definitions

* `TypeStore.Unfolds s i τ` : following bindings and components from `i` ends, and gives `τ`.
* `TypeStore.Shortened s i s'` : in `s'` the way from `i` is as short as can be, and all else is as
  it is in `s`.
-/

namespace SimpleLang

namespace Node

/-- A bound variable is bound to another node, any other node stays as it is. -/
def redirect (target : NodeId) : Node → Node
  | .constant t => .constant t
  | .var id none => .var id none
  | .var id (some _) => .var id (some target)
  | .function result params => .function result params

theorem alike_redirect (target : NodeId) (n : Node) : n.Alike (n.redirect target) := by
  rcases n with t | ⟨id, _ | j⟩ | ⟨result, params⟩
  · exact .same _
  · exact .same _
  · exact .bound id j target
  · exact .same _

end Node

namespace TypeStore

variable {s s' : TypeStore} {i j k : NodeId} {id : Nat}

/-! ### The loop -/

theorem map_redirect_of_root (h : s.Root i) (target : NodeId) :
    (s.node? i).map (Node.redirect target) = s.node? i := by
  cases hn : s.node? i with
  | none => rfl
  | some n =>
    rcases n with t | ⟨id, _ | j⟩ | ⟨result, params⟩
    · rfl
    · rfl
    · exact absurd hn (h id j)
    · rfl

open Classical in
theorem ite_leads_of_root (h : s.Root i) (target k : NodeId) :
    (if s.Leads i k then (s.node? k).map (Node.redirect target) else s.node? k) = s.node? k := by
  rw [leads_iff_of_root h]
  split
  · rename_i hk
    rw [hk, map_redirect_of_root h]
  · rfl

open Classical in
/-- The nodes after the loop.  The induction is on the turns that are left, which are enough for the
way that is left. -/
theorem node?_compressWithin : ∀ {n : Nat} {i : NodeId} {s : TypeStore}, s.BindingsEnd →
    s.wayLength i ≤ n → ∀ k, (compressWithin (s.resolve i) n i s).node? k =
      if s.Leads i k then (s.node? k).map (Node.redirect (s.resolve i)) else s.node? k := by
  intro n
  induction n with
  | zero =>
    intro i s _ hn k
    have hr : s.Root i :=
      root_of_size_le (Nat.not_lt.1 fun hi => by have := wayLength_pos hi; omega)
    rw [compressWithin_of_root hr, ite_leads_of_root hr]
  | succ n ih =>
    intro i s hs hn k
    by_cases hr : s.Root i
    · rw [compressWithin_of_root hr, ite_leads_of_root hr]
    · obtain ⟨id, j, hi⟩ := exists_bound_of_not_root hr
      have hbinds : s.Binds i j := ⟨id, hi⟩
      have hne : i ≠ s.resolve i := fun h => hr (h ▸ hs.root_resolve i)
      have hback := hs.not_leads hbinds
      -- the way from `j` is the same before and after this turn, since it does not come past `i`
      have hstep := hs.rebound hi
      have hlt := hs.wayLength_lt hbinds
      have hle := hstep.wayLength_le j
      have hrest := ih hstep.bindingsEnd (i := j) (by omega) k
      rw [hstep.resolve_eq, leads_set_iff hback] at hrest
      rw [compressWithin, if_neg hne, hi, hs.resolve_of_binds hbinds, leads_iff_of_binds hbinds]
      refine hrest.trans ?_
      by_cases hik : i = k
      · subst hik
        rw [if_neg hback, if_pos (.inl rfl), node?_set_self (lt_size_of_node? hi), hi]
        rfl
      · rw [node?_set_ne hik]
        simp only [Ne.symm hik, false_or]

open Classical in
/-- The nodes after asking for the representative of `i`: on the way from `i`, bound variables are
bound to it, and nothing else has changed. -/
theorem node?_find (hs : s.BindingsEnd) (i k : NodeId) : (s.find i).2.node? k =
    if s.Leads i k then (s.node? k).map (Node.redirect (s.resolve i)) else s.node? k :=
  node?_compressWithin hs (s.wayLength_le_size i) k

/-- Asking for a representative changes nothing but the targets of bindings. -/
theorem find_alike (hs : s.BindingsEnd) (i : NodeId) : s.Alike (s.find i).2 where
  size_eq := by
    have hsize := (find_sameTypes hs.wellFormed_bare i).size_eq
    rwa [bare_find, size_bare, size_bare] at hsize
  varCount_eq := by
    have hcount := (find_sameTypes hs.wellFormed_bare i).varCount_eq
    rwa [bare_find] at hcount
  nodes k n hn := by
    rw [node?_find hs, hn]
    split
    · exact ⟨_, rfl, n.alike_redirect _⟩
    · exact ⟨n, rfl, .same n⟩
  resolve_eq := hs.resolve_find i

/-- A variable that is bound to its representative already stays as it is. -/
theorem find_of_direct (hn : s.node? i = some (.var id (some j))) (hj : s.Root j) :
    s.find i = (j, s) := by
  have hne : i ≠ j := by
    rintro rfl
    exact hj id i hn
  obtain ⟨n, hsize⟩ : ∃ n, s.size = n + 1 :=
    Nat.exists_eq_add_one.2 (Nat.zero_lt_of_lt (lt_size_of_node? hn))
  have hresolve : s.resolve i = j := by
    rw [resolve, hsize, resolveWithin, hn]
    exact resolveWithin_of_root hj n
  -- the loop takes one turn, which writes what is there
  rw [find, hresolve, hsize, compressWithin, if_neg hne, hn]
  simp only [set_eq_self hn, compressWithin_of_root hj]

/-- Asking again changes nothing. -/
theorem find_find (hs : s.BindingsEnd) (i : NodeId) : (s.find i).2.find i = s.find i := by
  by_cases hr : s.Root i
  · rw [find_of_root hr, find_of_root hr]
  · obtain ⟨id, j, hn⟩ := exists_bound_of_not_root hr
    have hdirect : (s.find i).2.node? i = some (.var id (some (s.resolve i))) := by
      rw [node?_find hs, if_pos .refl, hn]
      rfl
    exact find_of_direct hdirect ((find_alike hs i).root (hs.root_resolve i))

/-! ### Types that can be written out -/

/-- Following bindings and components from a node ends, and gives a type. -/
inductive Unfolds (s : TypeStore) : NodeId → Ty → Prop
  /-- A constant. -/
  | constant {i : NodeId} {t : BaseType} : s.node? i = some (.constant t) →
    Unfolds s i (.base t)
  /-- An unbound variable. -/
  | unbound {i : NodeId} {id : Nat} : s.node? i = some (.var id none) → Unfolds s i (.var id)
  /-- A bound variable, which has the type of its target. -/
  | bound {i j : NodeId} {id : Nat} {τ : Ty} : s.node? i = some (.var id (some j)) →
    Unfolds s j τ → Unfolds s i τ
  /-- A function type, made from the types `f` of its components. -/
  | function {i result : NodeId} {params : List NodeId} (f : NodeId → Ty) :
    s.node? i = some (.function result params) → (∀ j ∈ result :: params, Unfolds s j (f j)) →
    Unfolds s i (.fn (params.map f) (f result))

variable {τ : Ty}

/-- What can be written out is not on a circle. -/
theorem Unfolds.not_circular (h : s.Unfolds i τ) : ¬ Relation.TransGen s.Link i i := by
  -- a circle through a node goes through one of the nodes that it links to
  have key : ∀ {i n}, s.node? i = some n → (∀ j ∈ n.links, ¬ Relation.TransGen s.Link j j) →
      ¬ Relation.TransGen s.Link i i := by
    intro i n hn hlinks hi
    obtain ⟨j, hj, hji⟩ := Relation.TransGen.head'_iff.1 hi
    have htail : Relation.TransGen s.Link j j := .tail' hji hj
    obtain ⟨m, hm, hmem⟩ := hj
    rw [hn] at hm
    cases hm
    exact hlinks j hmem htail
  induction h with
  | constant hn => exact key hn (by simp)
  | unbound hn => exact key hn (by simp)
  | bound hn _ ih => exact key hn (by simpa using ih)
  | function f hn _ ih => exact key hn ih

/-- The depth to which types are read is enough for all that can be written out. -/
theorem Unfolds.termWithin_eq (h : s.Unfolds i τ) : ∀ {n : Nat}, s.rank i ≤ n →
    s.termWithin n i = τ := by
  have hsucc : ∀ {i m n}, s.node? i = some m → s.rank i ≤ n → ∃ n', n = n' + 1 :=
    fun hm hle => Nat.exists_eq_add_one.2 ((rank_pos (lt_size_of_node? hm)).trans_le hle)
  induction h with
  | constant hn =>
    intro n hle
    obtain ⟨n, rfl⟩ := hsucc hn hle
    rw [termWithin, hn]
  | unbound hn =>
    intro n hle
    obtain ⟨n, rfl⟩ := hsucc hn hle
    rw [termWithin, hn]
  | @bound i j id τ hn hj ih =>
    intro n hle
    obtain ⟨n, rfl⟩ := hsucc hn hle
    have hlt : s.rank j < s.rank i :=
      rank_lt_of_link (Unfolds.bound hn hj).not_circular ⟨_, hn, by simp⟩
    rw [termWithin, hn]
    exact ih (by omega)
  | @function i result params f hn hf ih =>
    intro n hle
    obtain ⟨n, rfl⟩ := hsucc hn hle
    have hj : ∀ j ∈ result :: params, s.termWithin n j = f j := fun j hj => by
      have hlt := rank_lt_of_link (Unfolds.function f hn hf).not_circular ⟨_, hn, hj⟩
      exact ih j hj (by omega)
    rw [termWithin, hn, ← hj result List.mem_cons_self]
    exact congrArg (Ty.fn · _)
      (List.map_congr_left fun p hp => hj p (List.mem_cons_of_mem _ hp))

theorem Unfolds.term_eq (h : s.Unfolds i τ) : s.term i = τ := h.termWithin_eq (s.rank_le_size i)

theorem Unfolds.display_eq (h : s.Unfolds i τ) : s.display i = τ.text := by
  rw [display, h.term_eq]

/-- In a well-formed store every type can be written out. -/
theorem WellFormed.unfolds (hs : s.WellFormed) (hi : i < s.size) : s.Unfolds i (s.term i) := by
  suffices h : ∃ τ, s.Unfolds i τ by
    obtain ⟨τ, hτ⟩ := h
    rwa [hτ.term_eq]
  induction i using hs.induction with
  | step i ih =>
    obtain ⟨n, hn⟩ := exists_node_of_lt hi
    have hj : ∀ j ∈ n.links, ∃ τ, s.Unfolds j τ :=
      fun j hj => ih j ⟨n, hn, hj⟩ (hs.lt_of_mem_links hn hj)
    rcases n with t | ⟨id, _ | j⟩ | ⟨result, params⟩
    · exact ⟨_, .constant hn⟩
    · exact ⟨_, .unbound hn⟩
    · obtain ⟨τ, hτ⟩ := hj j (by simp)
      exact ⟨τ, .bound hn hτ⟩
    · have : Nonempty Ty := ⟨.base .int⟩
      choose! f hf using hj
      exact ⟨_, .function f hn hf⟩

theorem unfolds_iff_of_binds (h : s.Binds i j) : s.Unfolds i τ ↔ s.Unfolds j τ := by
  obtain ⟨id, hn⟩ := h
  refine ⟨fun hi => ?_, fun hj => .bound hn hj⟩
  cases hi with
  | constant hn' => cases hn.symm.trans hn'
  | unbound hn' => cases hn.symm.trans hn'
  | bound hn' hj =>
    cases hn.symm.trans hn'
    exact hj
  | function f hn' _ => cases hn.symm.trans hn'

theorem unfolds_iff_of_leads (h : s.Leads i k) : s.Unfolds i τ ↔ s.Unfolds k τ := by
  induction h with
  | refl => exact .rfl
  | tail _ hb ih => exact ih.trans (unfolds_iff_of_binds hb)

/-- What can be written out depends on representatives only. -/
theorem Alike.unfolds (h : s.Alike s') (hs : s.BindingsEnd) (hi : s.Unfolds i τ) :
    s'.Unfolds i τ := by
  have hsame : ∀ {i n}, s.node? i = some n → (∀ id j, n ≠ .var id (some j)) →
      s'.node? i = some n := fun hn hne => (h.node?_of_root (root_of_node hn hne)).trans hn
  induction hi with
  | constant hn => exact .constant (hsame hn (by simp))
  | unbound hn => exact .unbound (hsame hn (by simp))
  | @bound i j id τ hn _ ih =>
    -- in `s'` the variable may be bound to another node, but it has the representative of `j`
    have hresolve : s'.resolve i = s'.resolve j := by
      rw [h.resolve_eq, h.resolve_eq, hs.resolve_of_binds ⟨id, hn⟩]
    rw [unfolds_iff_of_leads (leads_resolve s' j), ← hresolve] at ih
    exact (unfolds_iff_of_leads (leads_resolve s' i)).2 ih
  | function f hn _ ih => exact .function f (hsame hn (by simp)) ih

/-! ### What has changed -/

/-- The store `s'` is the store `s` with the shortest way from `i`: bindings have other targets, the
representatives are the same, and all that can be seen but for the targets is as it was. -/
structure Shortened (s : TypeStore) (i : NodeId) (s' : TypeStore) : Prop extends Alike s s' where
  /-- Every way still ends. -/
  bindingsEnd : s'.BindingsEnd
  /-- Every node on the way but the representative is a variable that was bound to some node and is
  bound to the representative directly. -/
  way : ∀ k, s.Leads i k → k ≠ s.resolve i → ∃ id j,
    s.node? k = some (.var id (some j)) ∧ s'.node? k = some (.var id (some (s.resolve i)))
  /-- The representative and the nodes that are not on the way are what they were. -/
  rest : ∀ k, k = s.resolve i ∨ ¬ s.Leads i k → s'.node? k = s.node? k
  /-- The same variables are bound. -/
  boundVars_eq : s'.boundVars = s.boundVars
  /-- The same types can be written out, and they are the same. -/
  unfolds_iff : ∀ k τ, s'.Unfolds k τ ↔ s.Unfolds k τ
  /-- Types that can be written out are shown as they were. -/
  display_eq : ∀ k τ, s.Unfolds k τ → s.display k = τ.text ∧ s'.display k = τ.text

theorem Alike.boundVars_eq (h : s.Alike s') : s'.boundVars = s.boundVars := by
  have hsub : ∀ {s s' : TypeStore}, s.Alike s' → s.boundVars ⊆ s'.boundVars := by
    intro s s' h k hk
    obtain ⟨id, j, hn⟩ := mem_boundVars.1 hk
    obtain ⟨n', hn', hnn'⟩ := h.nodes k _ hn
    cases hnn' with
    | same => exact mem_boundVars.2 ⟨id, j, hn'⟩
    | bound _ _ j' => exact mem_boundVars.2 ⟨id, j', hn'⟩
  exact (hsub h.symm).antisymm (hsub h)

theorem find_shortened (hs : s.BindingsEnd) (i : NodeId) : s.Shortened i (s.find i).2 where
  toAlike := find_alike hs i
  bindingsEnd := hs.find i
  way k hk hne := by
    have hr : ¬ s.Root k := by
      intro hr
      rw [← hs.resolve_of_leads hk, resolve_of_root hr] at hne
      exact hne rfl
    obtain ⟨id, j, hn⟩ := exists_bound_of_not_root hr
    refine ⟨id, j, hn, ?_⟩
    rw [node?_find hs, if_pos hk, hn]
    rfl
  rest k hk := by
    rw [node?_find hs]
    split
    · rename_i hway
      obtain rfl : k = s.resolve i := hk.resolve_right (not_not_intro hway)
      exact map_redirect_of_root (hs.root_resolve i) _
    · rfl
  boundVars_eq := (find_alike hs i).boundVars_eq
  unfolds_iff _ _ :=
    ⟨(find_alike hs i).symm.unfolds (hs.find i), (find_alike hs i).unfolds hs⟩
  display_eq _ _ h := ⟨h.display_eq, ((find_alike hs i).unfolds hs h).display_eq⟩

/-- **Asking for a representative gives it, shortens the way and does nothing else**, in every store
in which every way along bindings ends.  Representatives are where ways end.  The loops come to
their ends, and no node outside of the store is looked at.  Asking again changes nothing.  In a
well-formed store every node can be shown, and is shown as it was. -/
theorem find_exact (hs : s.BindingsEnd) (hi : i < s.size) :
    (∀ k, s.Leads k (s.resolve k) ∧ s.Root (s.resolve k)) ∧
    (s.find i).1 = s.resolve i ∧
    (∀ log, Unifier.strictFind i ⟨s, log⟩ = .ok (s.resolve i) ⟨(s.find i).2, log⟩) ∧
    s.Shortened i (s.find i).2 ∧
    (s.find i).2.find i = s.find i ∧
    (s.WellFormed → ∀ k < s.size, (s.find i).2.display k = s.display k) := by
  have hshort := find_shortened hs i
  refine ⟨fun k => ⟨leads_resolve s k, hs.root_resolve k⟩, rfl, fun log => ?_, hshort,
    find_find hs i, fun hwf k hk => ?_⟩
  · exact Unifier.strictFind_eq (i := ⟨s, log⟩) hs hi
  · obtain ⟨hbefore, hafter⟩ := hshort.display_eq k _ (hwf.unfolds hk)
    rw [hbefore, hafter]

/-- A way of three variables to `int` with a fourth bound to the second of them, and a variable that
is bound to a function type with the variable itself as parameter, so that it cannot be shown. -/
theorem find_exact_merging :
    let s : TypeStore := ⟨#[.constant .int, .constant .bool, .var 0 (some 3), .var 1 (some 4),
      .var 2 (some 0), .var 3 (some 3), .var 4 (some 7), .function 5 [6]], 5⟩
    s.BindingsEnd ∧ (s.find 2).1 = 0 ∧
    (s.find 2).2.nodes = #[.constant .int, .constant .bool, .var 0 (some 0), .var 1 (some 0),
      .var 2 (some 0), .var 3 (some 3), .var 4 (some 7), .function 5 [6]] ∧
    s.Shortened 2 (s.find 2).2 ∧ (s.find 2).2.display 5 = "int" ∧
    (∀ τ, ¬ (s.find 2).2.Unfolds 6 τ) ∧ (s.find 2).2.find 2 = s.find 2 := by
  intro s
  have hs : s.BindingsEnd := by decide
  obtain ⟨-, -, -, hshort, hagain, -⟩ := find_exact hs (show 2 < s.size by decide)
  have hint : s.Unfolds 5 (.base .int) :=
    .bound rfl (.bound rfl (.bound rfl (.constant rfl)))
  have hbound : s.Link 6 7 := ⟨.var 4 (some 7), rfl, by simp⟩
  have hparam : s.Link 7 6 := ⟨.function 5 [6], rfl, by simp⟩
  have hcircle : Relation.TransGen s.Link 6 6 := .tail (.single hbound) hparam
  exact ⟨hs, by decide, by decide, hshort, (hshort.display_eq 5 _ hint).2,
    fun τ h => ((hshort.unfolds_iff 6 τ).1 h).not_circular hcircle, hagain⟩

end TypeStore

end SimpleLang
