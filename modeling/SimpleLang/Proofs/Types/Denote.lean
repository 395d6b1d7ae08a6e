import SimpleLang.Proofs.Types.Substitution
import SimpleLang.Proofs.Types.WellFormed

/-!
# What nodes stand for

`TypeStore.denote` reads a node as a type in which an unbound variable is known by its node, so
two variables never look the same, whatever numbers they show.  In a well-formed store it obeys
one equation for every kind of node, with no trace of the depth that bounds it.

The type that is shown, `TypeStore.term`, is the same with variables renamed (`term_eq`), and the
search for a variable in a type finds exactly the types that mention it (`occurs_iff`).
-/

namespace SimpleLang

namespace TypeStore

variable {s : TypeStore} {i j : NodeId} {n : Node}

/-- The type of a node, at most `k` levels deep. -/
def denoteWithin (s : TypeStore) : Nat → NodeId → Ty
  | 0, i => .var i
  | k + 1, i =>
    match s.node? i with
    | some (.constant t) => .base t
    | some (.var _ (some next)) => denoteWithin s k next
    | some (.function result params) =>
      .fn (params.map fun p => denoteWithin s k p) (denoteWithin s k result)
    | _ => .var i

/-- The type of a node.  An unbound variable is known by its node. -/
def denote (s : TypeStore) (i : NodeId) : Ty := s.denoteWithin s.size i

/-! ### The equations of `denote` -/

/-- No type goes deeper than the rank of its node. -/
theorem denoteWithin_eq (hs : s.WellFormed) : ∀ {k m : Nat} {i : NodeId}, s.rank i ≤ k →
    s.rank i ≤ m → s.denoteWithin k i = s.denoteWithin m i := by
  intro k
  induction k with
  | zero =>
    intro m i hk _
    have hn : s.node? i = none :=
      node?_eq_none_iff.2 (Nat.not_lt.1 fun hi => by have := rank_pos hi; omega)
    cases m with
    | zero => rfl
    | succ m => simp only [denoteWithin, hn]
  | succ k ih =>
    intro m i hk hm
    cases hn : s.node? i with
    | none => cases m <;> simp only [denoteWithin, hn]
    | some n =>
      have hpos := rank_pos (lt_size_of_node? hn)
      obtain ⟨m, rfl⟩ : ∃ m', m = m' + 1 := ⟨m - 1, by omega⟩
      -- a link leads to a lower rank, so one level less is enough there
      have hj : ∀ j ∈ n.links, s.denoteWithin k j = s.denoteWithin m j := fun j hj => by
        have := hs.rank_lt ⟨n, hn, hj⟩
        exact ih (by omega) (by omega)
      rcases n with t | ⟨id, _ | j⟩ | ⟨result, params⟩ <;> simp only [denoteWithin, hn]
      · exact hj j (by simp)
      · rw [hj result (by simp)]
        exact congrArg (Ty.fn · _) (List.map_congr_left fun p hp => hj p (by simp [hp]))

theorem denoteWithin_eq_denote (hs : s.WellFormed) {k : Nat} (h : s.rank i ≤ k) :
    s.denoteWithin k i = s.denote i :=
  denoteWithin_eq hs h (s.rank_le_size i)

theorem denote_missing (h : s.size ≤ i) : s.denote i = .var i := by
  have hn : s.node? i = none := node?_eq_none_iff.2 h
  rw [denote]
  cases s.size <;> simp only [denoteWithin, hn]

theorem denote_constant {t : BaseType} (h : s.node? i = some (.constant t)) :
    s.denote i = .base t := by
  obtain ⟨k, hk⟩ : ∃ k, s.size = k + 1 := Nat.exists_eq_add_one.2 (Nat.zero_lt_of_lt
    (lt_size_of_node? h))
  simp only [denote, hk, denoteWithin, h]

theorem denote_unbound {id : Nat} (h : s.node? i = some (.var id none)) :
    s.denote i = .var i := by
  rw [denote]
  cases s.size <;> simp only [denoteWithin, h]

theorem denote_bound (hs : s.WellFormed) {id : Nat} (h : s.node? i = some (.var id (some j))) :
    s.denote i = s.denote j := by
  have hlt := hs.rank_lt_of_bound h
  have hle := s.rank_le_size i
  obtain ⟨k, hk⟩ : ∃ k, s.size = k + 1 := ⟨s.size - 1, by omega⟩
  have hj : s.denoteWithin k j = s.denote j := denoteWithin_eq_denote hs (by omega)
  rw [← hj, denote, hk]
  simp only [denoteWithin, h]

theorem denote_function (hs : s.WellFormed) {result : NodeId} {params : List NodeId}
    (h : s.node? i = some (.function result params)) :
    s.denote i = .fn (params.map s.denote) (s.denote result) := by
  have hle := s.rank_le_size i
  have hpos := rank_pos (lt_size_of_node? h)
  obtain ⟨k, hk⟩ : ∃ k, s.size = k + 1 := ⟨s.size - 1, by omega⟩
  have hj : ∀ j ∈ result :: params, s.denoteWithin k j = s.denote j := fun j hj => by
    have := hs.rank_lt ⟨_, h, hj⟩
    exact denoteWithin_eq_denote hs (by omega)
  rw [denote, hk]
  simp only [denoteWithin, h]
  rw [hj result (by simp)]
  exact congrArg (Ty.fn · _) (List.map_congr_left fun p hp => hj p (by simp [hp]))

/-- A node and its representative stand for the same type. -/
theorem denote_resolve (hs : s.WellFormed) (i : NodeId) : s.denote (s.resolve i) = s.denote i :=
  resolve_induction (P := fun i r => s.denote r = s.denote i) hs (fun _ _ => rfl)
    (fun _ _ _ hn h => h.trans (denote_bound hs hn).symm) i

/-- Of nodes that are not bound, only an unbound variable stands for a variable. -/
theorem eq_of_denote_eq_var (hs : s.WellFormed) (hr : s.Root i) {v : NodeId}
    (h : s.denote i = .var v) : i = v := by
  cases hn : s.node? i with
  | none => exact Ty.var.inj ((denote_missing (node?_eq_none_iff.1 hn)).symm.trans h)
  | some n =>
    rcases n with t | ⟨id, _ | j⟩ | ⟨result, params⟩
    · rw [denote_constant hn] at h
      cases h
    · exact Ty.var.inj ((denote_unbound hn).symm.trans h)
    · exact absurd hn (hr id j)
    · rw [denote_function hs hn] at h
      cases h

/-! ### The types that are shown -/

/-- The variable that is shown for an unbound variable. -/
def shown (s : TypeStore) (v : NodeId) : Ty :=
  match s.node? v with
  | some (.var id _) => .var id
  | _ => .var v

/-- What is shown is what the node stands for, with the variables' own numbers. -/
theorem termWithin_eq (hs : s.WellFormed) : ∀ {k : Nat} {i : NodeId}, s.rank i ≤ k →
    i < s.size → s.termWithin k i = (s.denote i).subst s.shown := by
  intro k
  induction k with
  | zero =>
    intro i hk hi
    have := rank_pos hi
    omega
  | succ k ih =>
    intro i hk hi
    obtain ⟨n, hn⟩ := exists_node_of_lt hi
    have hj : ∀ j ∈ n.links, s.termWithin k j = (s.denote j).subst s.shown := fun j hj => by
      have := hs.rank_lt ⟨n, hn, hj⟩
      exact ih (by omega) (hs.lt_of_mem_links hn hj)
    rw [termWithin, hn]
    rcases n with t | ⟨id, _ | j⟩ | ⟨result, params⟩
    · rw [denote_constant hn, Ty.subst_base]
    · rw [denote_unbound hn, Ty.subst_variable, shown, hn]
    · rw [denote_bound hs hn]
      exact hj j (by simp)
    · rw [denote_function hs hn, Ty.subst_fn, List.map_map, ← hj result (by simp)]
      exact congrArg (Ty.fn · _) (List.map_congr_left fun p hp => hj p (by simp [hp]))

theorem term_eq (hs : s.WellFormed) (hi : i < s.size) :
    s.term i = (s.denote i).subst s.shown :=
  termWithin_eq hs (s.rank_le_size i) hi

/-! ### Looking for a variable -/

/-- The search for a node goes no deeper than the rank. -/
theorem occursWithin_eq (hs : s.WellFormed) (root : NodeId) : ∀ {k m : Nat} {i : NodeId},
    i < s.size → s.rank i ≤ k → s.rank i ≤ m →
      s.occursWithin root k i = s.occursWithin root m i := by
  intro k
  induction k with
  | zero =>
    intro m i hi hk _
    have := rank_pos hi
    omega
  | succ k ih =>
    intro m i hi hk hm
    have hpos := rank_pos hi
    have hle := rank_resolve_le hs i
    obtain ⟨m, rfl⟩ : ∃ m', m = m' + 1 := ⟨m - 1, by omega⟩
    rw [occursWithin, occursWithin]
    congr 1
    split
    · rename_i result params hn
      have hj : ∀ j ∈ result :: params, s.occursWithin root k j = s.occursWithin root m j :=
        fun j hj => by
          have := hs.rank_lt ⟨_, hn, hj⟩
          exact ih (hs.lt_of_mem_links hn hj) (by omega) (by omega)
      rw [hj result (by simp), Bool.eq_iff_iff, Bool.or_eq_true, Bool.or_eq_true,
        List.any_eq_true, List.any_eq_true]
      exact or_congr_right (exists_congr fun p => and_congr_right fun hp => by
        rw [hj p (by simp [hp])])
    · rfl

theorem occursWithin_iff (hs : s.WellFormed) {v : NodeId} {id : Nat}
    (hv : s.node? v = some (.var id none)) : ∀ {k : Nat} {i : NodeId}, i < s.size →
      s.rank i ≤ k → (s.occursWithin v k i = true ↔ (s.denote i).Mentions v) := by
  intro k
  induction k with
  | zero =>
    intro i hi hk
    have := rank_pos hi
    omega
  | succ k ih =>
    intro i hi hk
    have hle := rank_resolve_le hs i
    rw [occursWithin, ← denote_resolve hs i, Bool.or_eq_true, beq_iff_eq]
    obtain ⟨n, hn⟩ := exists_node_of_lt (resolve_lt_size hs hi)
    rcases n with t | ⟨id', _ | j⟩ | ⟨result, params⟩ <;> simp only [hn]
    · rw [denote_constant hn]
      have : s.resolve i ≠ v := by
        rintro rfl
        rw [hv] at hn
        cases hn
      simp [this]
    · rw [denote_unbound hn, Ty.mentions_var]
      simp [eq_comm]
    · exact absurd hn (root_resolve hs i _ _)
    · have hne : s.resolve i ≠ v := by
        rintro rfl
        rw [hv] at hn
        cases hn
      have hj : ∀ j ∈ result :: params,
          (s.occursWithin v k j = true ↔ (s.denote j).Mentions v) := fun j hj => by
        have := hs.rank_lt ⟨_, hn, hj⟩
        exact ih (hs.lt_of_mem_links hn hj) (by omega)
      rw [denote_function hs hn, Ty.mentions_fn, List.exists_mem_cons_iff, Bool.or_eq_true,
        List.any_eq_true, hj result (by simp)]
      simp only [hne, false_or, List.mem_map, exists_exists_and_eq_and]
      exact or_congr_right (exists_congr fun p => and_congr_right fun hp => hj p (by simp [hp]))

/-- An unbound variable is found in exactly the types that mention it. -/
theorem occurs_iff (hs : s.WellFormed) {v : NodeId} {id : Nat}
    (hv : s.node? v = some (.var id none)) (hi : i < s.size) :
    s.occurs v i = true ↔ (s.denote i).Mentions v := by
  rw [occurs, resolve_of_root (root_of_unbound hv)]
  exact occursWithin_iff hs hv hi (s.rank_le_size i)

end TypeStore

end SimpleLang
