import SimpleLang.Proofs.Outcome
import SimpleLang.Proofs.Types.Growth
import SimpleLang.Types.Unify

/-!
# Unification

`Unifier.unify` solves an equation between two nodes of a well-formed store: when it succeeds,
the models of the store are exactly the earlier ones that give the two nodes one type, and when
it fails there was no such model (`Unifier.unify_solves`).  In terms of substitutions it computes
a most general unifier (`Unifier.unify_mostGeneral`).

Comparing two function types goes on with their components, and what is bound on the way changes
the types that are still to be compared.  The number of nodes nevertheless bounds the depth: each
level is entered through a function type of its own around the nodes being compared, and
substitution keeps a type inside of those around it (`TypeStore.Reserve`).
-/

namespace SimpleLang

namespace TypeStore

variable {s s' : TypeStore} {i : NodeId}

/-! ### The depth of a comparison -/

/-- There are enough levels left for node `i`: every level that is already used up belongs to a
node with a type around that of `i`. -/
def Reserve (s : TypeStore) (levels : Nat) (i : NodeId) : Prop :=
  ∃ around : Finset NodeId, (∀ f ∈ around, f < s.size ∧ (s.denote i).Part (s.denote f)) ∧
    s.size ≤ levels + around.card

theorem reserve_size (s : TypeStore) (i : NodeId) : s.Reserve s.size i :=
  ⟨∅, by simp, by simp⟩

/-- A node is not among those around it, so a level is left for it. -/
theorem Reserve.pos {k : Nat} (h : s.Reserve k i) (hi : i < s.size) : 0 < k := by
  obtain ⟨A, hA, hk⟩ := h
  have hnot : i ∉ A := fun hmem => Ty.Part.irrefl _ (hA i hmem).2
  have hsub : insert i A ⊆ Finset.range s.size := by
    intro f hf
    rcases Finset.mem_insert.1 hf with rfl | hf
    · exact Finset.mem_range.2 hi
    · exact Finset.mem_range.2 (hA f hf).1
  have hcard := Finset.card_le_card hsub
  rw [Finset.card_insert_of_notMem hnot, Finset.card_range] at hcard
  omega

/-- One level down, the function type that was entered is one more around its components. -/
theorem Reserve.component {k : Nat} {f c result : NodeId} {params : List NodeId}
    (h : s.Reserve (k + 1) f) (hs : s.WellFormed)
    (hf : s.node? f = some (.function result params)) (hc : c ∈ result :: params) :
    s.Reserve k c := by
  obtain ⟨A, hA, hk⟩ := h
  have hpart : (s.denote c).Part (s.denote f) := by
    refine .single ⟨_, _, denote_function hs hf, ?_⟩
    rw [← List.map_cons]
    exact List.mem_map_of_mem hc
  have hnot : f ∉ A := fun hmem => Ty.Part.irrefl _ (hA f hmem).2
  refine ⟨insert f A, fun g hg => ?_, ?_⟩
  · rcases Finset.mem_insert.1 hg with rfl | hg
    · exact ⟨lt_size_of_node? hf, hpart⟩
    · exact ⟨(hA g hg).1, hpart.trans (hA g hg).2⟩
  · rw [Finset.card_insert_of_notMem hnot]
    omega

theorem Reserve.refines {k : Nat} (h : s.Reserve k i) (hs : s.WellFormed) (h' : s.Refines s') :
    s'.Reserve k i := by
  obtain ⟨A, hA, hk⟩ := h
  refine ⟨A, fun f hf => ?_, by rw [h'.size_eq]; exact hk⟩
  obtain ⟨hlt, hpart⟩ := hA f hf
  rw [h'.size_eq, h'.denote_eq hs h'.wellFormed i, h'.denote_eq hs h'.wellFormed f]
  exact ⟨hlt, hpart.subst _⟩

theorem Reserve.resolve {k : Nat} (h : s.Reserve k i) (hs : s.WellFormed) :
    s.Reserve k (s.resolve i) := by
  obtain ⟨A, hA, hk⟩ := h
  exact ⟨A, by simpa only [denote_resolve hs] using hA, hk⟩

theorem isUnbound_iff : s.isUnbound i = true ↔ ∃ id, s.node? i = some (.var id none) := by
  rw [isUnbound]
  split
  · rename_i id h
    simp [h]
  · rename_i h
    simp only [Bool.false_eq_true, false_iff, not_exists]
    exact fun id hn => h id hn

end TypeStore

namespace Unifier

open TypeStore

variable {s s' : TypeStore} {a b : NodeId} {i : Inference} {E E' : (NodeId → Ty) → Prop}

/-! ### Solving a condition on types -/

/-- The outcome of work on a store `s` that makes the condition `E` hold: on success the models
that satisfy `E` are left, on failure there was none. -/
def Solves (s : TypeStore) (E : (NodeId → Ty) → Prop) :
    EStateM.Result (Failure Problem) Inference Unit → Prop
  | .ok _ i => s.Refines i.types ∧ ∀ M, i.types.Models M ↔ s.Models M ∧ E M
  | .error (.rejected _) i => s.Refines i.types ∧ ∀ M, s.Models M → ¬ E M
  | .error (.breach _) _ => False

theorem Solves.congr {r : EStateM.Result (Failure Problem) Inference Unit} (h : Solves s E r)
    (hE : ∀ M, s.Models M → (E M ↔ E' M)) : Solves s E' r := by
  rcases r with ⟨_, i⟩ | ⟨_ | _, i⟩
  · exact ⟨h.1, fun M => (h.2 M).trans (and_congr_right (hE M))⟩
  · exact ⟨h.1, fun M hM hE' => h.2 M hM ((hE M hM).2 hE')⟩
  · exact h

theorem Solves.of_sameTypes {r : EStateM.Result (Failure Problem) Inference Unit}
    (hs : s.SameTypes s') (h : Solves s' E r) : Solves s E r := by
  rcases r with ⟨_, i⟩ | ⟨_ | _, i⟩
  · exact ⟨hs.toRefines.trans h.1, fun M => by rw [h.2 M, hs.models_iff]⟩
  · exact ⟨hs.toRefines.trans h.1, fun M hM => h.2 M (hs.models_of M hM)⟩
  · exact h

theorem Solves.refines_ok {u : Unit} (h : Solves s E (.ok u i)) : s.Refines i.types := h.1

/-- A failure too leaves the store more definite at most. -/
theorem Solves.refines_error {e : Failure Problem} (h : Solves s E (.error e i)) :
    s.Refines i.types := by
  rcases e with _ | _
  · exact h.1
  · exact h.elim

/-- First one condition, then another. -/
theorem Solves.bind {x : Unifier Unit} {f : Unit → Unifier Unit} (hx : Solves s E (x i))
    (hf : ∀ i', s.Refines i'.types → Solves i'.types E' (f () i')) :
    Solves s (fun M => E M ∧ E' M) ((x >>= f) i) := by
  change Solves s _ (EStateM.bind x f i)
  unfold EStateM.bind
  rcases hr : x i with ⟨_, i'⟩ | ⟨_ | _, i'⟩ <;> rw [hr] at hx
  · obtain ⟨href, hM⟩ := hx
    have h := hf i' href
    change Solves s _ (f () i')
    generalize f () i' = r at h ⊢
    rcases r with ⟨_, i''⟩ | ⟨_ | _, i''⟩
    · exact ⟨href.trans h.1, fun M => by rw [h.2 M, hM M, and_assoc]⟩
    · exact ⟨href.trans h.1, fun M hm hE => h.2 M ((hM M).2 ⟨hm, hE.1⟩) hE.2⟩
    · exact h
  · exact ⟨hx.1, fun M hm hE => hx.2 M hm hE.1⟩
  · exact hx

theorem Solves.pure (hs : i.types.WellFormed) (hE : ∀ M, i.types.Models M → E M) :
    Solves i.types E ((Pure.pure () : Unifier Unit) i) :=
  ⟨.refl hs, fun M => ⟨fun hM => ⟨hM, hE M hM⟩, And.left⟩⟩

theorem Solves.rejected {p : Problem} (hs : i.types.WellFormed)
    (hE : ∀ M, i.types.Models M → ¬ E M) :
    Solves i.types E ((throw (.rejected p) : Unifier Unit) i) :=
  ⟨.refl hs, hE⟩

theorem solves_mismatch (hs : i.types.WellFormed) (hE : ∀ M, i.types.Models M → ¬ E M) :
    Solves i.types E (mismatch a b i) :=
  ⟨.refl hs, hE⟩

/-! ### Binding -/

theorem node_eq {n : Node} (h : i.types.node? a = some n) : node a i = .ok n i := by
  have hask : askTypes (·.node? a) i = .ok (i.types.node? a) i := rfl
  rw [node, bind_of_ok hask, h]
  rfl

theorem bindTo_eq {v t : NodeId} {id : Nat} (hne : v ≠ t)
    (hv : i.types.node? v = some (.var id none)) :
    bindTo v t i =
      .ok () ⟨i.types.set v (.var id (some t)), i.log.push (.bound id t)⟩ := by
  rw [bindTo, if_neg hne, bind_of_ok (node_eq hv)]
  rfl

theorem assign_eq (v t : NodeId) (i : Inference) : assign v t i =
    (if i.types.occurs v t then
      throw (.rejected (.typeMismatch (i.types.display v)
        (i.types.display t ++ " (infinite type)")))
    else do
      note (.unified (i.types.display v) (i.types.display t))
      bindTo v t : Unifier Unit) i := rfl

theorem assign_infinite {v t : NodeId} (ho : i.types.occurs v t = true) : assign v t i =
    .error (.rejected (.typeMismatch (i.types.display v)
      (i.types.display t ++ " (infinite type)"))) i := by
  rw [assign_eq, if_pos ho]
  rfl

theorem assign_bound {v t : NodeId} {id : Nat} (hne : v ≠ t)
    (hv : i.types.node? v = some (.var id none)) (ho : ¬ i.types.occurs v t = true) :
    assign v t i = .ok () ⟨i.types.set v (.var id (some t)),
      (i.log.push (.unified (i.types.display v) (i.types.display t))).push (.bound id t)⟩ := by
  rw [assign_eq, if_neg ho]
  exact bindTo_eq (i := ⟨i.types, _⟩) hne hv

/-- The occurs check decides between binding and failing. -/
theorem assign_solves {v t : NodeId} (hs : i.types.WellFormed) (hne : v ≠ t)
    (hv : i.types.isUnbound v = true) (ht : t < i.types.size) (hr : i.types.Root t) :
    Solves i.types (fun M => M v = M t) (assign v t i) := by
  obtain ⟨id, hv⟩ := isUnbound_iff.1 hv
  have hocc := occurs_iff hs hv ht
  by_cases ho : i.types.occurs v t = true
  · -- the variable stands properly inside of the target, whatever is put for it
    rw [assign_infinite ho]
    refine ⟨.refl hs, fun M hM heq => ?_⟩
    have hvar : i.types.denote t ≠ .var v := fun h => hne (eq_of_denote_eq_var hs hr h).symm
    exact (hocc.1 ho).subst_ne hvar M (heq.trans (hM.eq_subst hs t))
  · rw [assign_bound hne hv ho]
    refine ⟨⟨extends_set hv fun M hM => ((bind_models_iff hv).1 hM).1, ?_, size_set _ _ _, rfl⟩,
      fun M => bind_models_iff hv⟩
    exact bind_wellFormed hs hv ht fun h => ho (hocc.2 h)

/-! ### Comparing -/

/-- What is left to do for two representatives. -/
def unifyRoots (k : Nat) (expected received : NodeId) : Unifier Unit := do
  if expected = received then return ()
  else if ← askTypes (·.isUnbound expected) then assign expected received
  else if ← askTypes (·.isUnbound received) then assign received expected
  else match ← node expected, ← node received with
    | .constant a, .constant b => if a = b then return () else mismatch expected received
    | .function result params, .function result' params' =>
      if params.length = params'.length then
        unifyWithin k result result'
        forPairs (unifyWithin k) params params'
      else throw (.rejected (.arityMismatch params.length params'.length))
    | _, _ => mismatch expected received

theorem unifyWithin_succ (k : Nat) (a b : NodeId) (i : Inference) :
    unifyWithin (k + 1) a b i =
      unifyRoots k (i.types.resolve a) ((i.types.find a).2.resolve b)
        ⟨((i.types.find a).2.find b).2, i.log⟩ := rfl

theorem askTypes_bind {α β : Type} (f : TypeStore → α) (g : α → Unifier β) (i : Inference) :
    (askTypes f >>= g) i = g (f i.types) i := rfl

/-- With `k` levels, unification solves every equation that has so many in reserve. -/
def SolvesWithin (k : Nat) : Prop :=
  ∀ (a b : NodeId) (i : Inference), i.types.WellFormed → a < i.types.size → b < i.types.size →
    i.types.Reserve k a → Solves i.types (fun M => M a = M b) (unifyWithin k a b i)

/-- Two lists of nodes, compared in order. -/
theorem forPairs_solves {k : Nat} (ih : SolvesWithin k) : ∀ {as bs : List NodeId}
    {i : Inference}, as.length = bs.length → i.types.WellFormed →
      (∀ a ∈ as, a < i.types.size ∧ i.types.Reserve k a) → (∀ b ∈ bs, b < i.types.size) →
      Solves i.types (fun M => as.map M = bs.map M) (forPairs (unifyWithin k) as bs i) := by
  intro as
  induction as with
  | nil =>
    intro bs i hlen hs _ _
    obtain rfl : bs = [] := List.eq_nil_of_length_eq_zero hlen.symm
    exact .pure hs fun _ _ => rfl
  | cons a as iha =>
    intro bs i hlen hs ha hb
    cases bs with
    | nil => cases hlen
    | cons b bs =>
      have hfirst := ih a b i hs (ha a List.mem_cons_self).1 (hb b List.mem_cons_self)
        (ha a List.mem_cons_self).2
      refine Solves.congr (.bind hfirst fun i' href => iha (Nat.succ.inj hlen) href.wellFormed
        (fun c hc => ?_) fun c hc => ?_) fun M _ => by simp
      · have hc := ha c (List.mem_cons_of_mem _ hc)
        exact ⟨by rw [href.size_eq]; exact hc.1, hc.2.refines hs href⟩
      · rw [href.size_eq]
        exact hb c (List.mem_cons_of_mem _ hc)

/-- Two function types of the same length are equal when their components are. -/
theorem functions_solves {k : Nat} {result result' : NodeId} {params params' : List NodeId}
    (ih : SolvesWithin k) (hs : i.types.WellFormed) (hres : i.types.Reserve (k + 1) a)
    (ha : i.types.node? a = some (.function result params))
    (hb : i.types.node? b = some (.function result' params'))
    (hlen : params.length = params'.length) :
    Solves i.types (fun M => M a = M b)
      ((do unifyWithin k result result'; forPairs (unifyWithin k) params params') i) := by
  have hlt : ∀ c ∈ result :: params, c < i.types.size := fun c hc => hs.lt_of_mem_links ha hc
  have hlt' : ∀ c ∈ result' :: params', c < i.types.size := fun c hc => hs.lt_of_mem_links hb hc
  have hfirst := ih result result' i hs (hlt _ List.mem_cons_self) (hlt' _ List.mem_cons_self)
    (hres.component hs ha List.mem_cons_self)
  refine Solves.congr (.bind hfirst fun i' href => forPairs_solves ih hlen href.wellFormed
    (fun c hc => ?_) fun c hc => ?_) fun M hM => ?_
  · have hc := List.mem_cons_of_mem result hc
    exact ⟨by rw [href.size_eq]; exact hlt c hc, (hres.component hs ha hc).refines hs href⟩
  · rw [href.size_eq]
    exact hlt' c (List.mem_cons_of_mem _ hc)
  · have hMa : M a = .fn (params.map M) (M result) := hM a _ ha
    have hMb : M b = .fn (params'.map M) (M result') := hM b _ hb
    rw [hMa, hMb, Ty.fn.injEq]
    exact and_comm

theorem unifyRoots_solves {k : Nat} (ih : SolvesWithin k) (hs : i.types.WellFormed)
    (ha : a < i.types.size) (hb : b < i.types.size) (hra : i.types.Root a)
    (hrb : i.types.Root b) (hres : i.types.Reserve (k + 1) a) :
    Solves i.types (fun M => M a = M b) (unifyRoots k a b i) := by
  unfold unifyRoots
  by_cases hab : a = b
  · rw [if_pos hab]
    exact .pure hs fun M _ => by rw [hab]
  rw [if_neg hab, askTypes_bind]
  by_cases hua : i.types.isUnbound a = true
  · rw [if_pos hua]
    exact assign_solves hs hab hua hb hrb
  rw [if_neg hua, askTypes_bind]
  by_cases hub : i.types.isUnbound b = true
  · rw [if_pos hub]
    exact (assign_solves hs (Ne.symm hab) hub ha hra).congr fun M _ => eq_comm
  rw [if_neg hub]
  obtain ⟨m, hm⟩ := exists_node_of_lt ha
  obtain ⟨n, hn⟩ := exists_node_of_lt hb
  rw [bind_of_ok (node_eq hm), bind_of_ok (node_eq hn)]
  -- neither node is a variable: an unbound one was dealt with, and both are representatives
  rcases m with t | ⟨id, _ | j⟩ | ⟨result, params⟩
  · rcases n with t' | ⟨id, _ | j⟩ | ⟨result', params'⟩
    · dsimp only
      by_cases ht : t = t'
      · rw [if_pos ht]
        exact .pure hs fun M hM => (hM a _ hm).trans (ht ▸ (hM b _ hn).symm)
      · rw [if_neg ht]
        refine solves_mismatch hs fun M hM heq => ht ?_
        exact Ty.base.inj ((hM a _ hm).symm.trans (heq.trans (hM b _ hn)))
    · exact absurd (isUnbound_iff.2 ⟨id, hn⟩) hub
    · exact absurd hn (hrb id j)
    · refine solves_mismatch hs fun M hM heq => ?_
      cases (hM a _ hm).symm.trans (heq.trans (hM b _ hn))
  · exact absurd (isUnbound_iff.2 ⟨id, hm⟩) hua
  · exact absurd hm (hra id j)
  · rcases n with t' | ⟨id, _ | j⟩ | ⟨result', params'⟩
    · refine solves_mismatch hs fun M hM heq => ?_
      cases (hM a _ hm).symm.trans (heq.trans (hM b _ hn))
    · exact absurd (isUnbound_iff.2 ⟨id, hn⟩) hub
    · exact absurd hn (hrb id j)
    · dsimp only
      by_cases hlen : params.length = params'.length
      · rw [if_pos hlen]
        exact functions_solves ih hs hres hm hn hlen
      · rw [if_neg hlen]
        refine .rejected hs fun M hM heq => hlen ?_
        have hfn := Ty.fn.inj ((hM a _ hm).symm.trans (heq.trans (hM b _ hn)))
        simpa using congrArg List.length hfn.1

theorem solvesWithin : ∀ k, SolvesWithin k := by
  intro k
  induction k with
  | zero =>
    intro a b i _ ha _ hres
    exact absurd (hres.pos ha) (Nat.lt_irrefl 0)
  | succ k ih =>
    intro a b i hs ha hb hres
    rw [unifyWithin_succ]
    -- finding the representatives moves bindings about, but no type changes
    have hfa := find_sameTypes hs a
    have hfb := find_sameTypes hfa.wellFormed b
    have hfind := hfa.trans hfb
    have hlt : ∀ {c}, c < i.types.size → i.types.resolve c < ((i.types.find a).2.find b).2.size :=
      fun hc => by rw [hfind.size_eq]; exact resolve_lt_size hs hc
    have hroot : ∀ c, ((i.types.find a).2.find b).2.Root (i.types.resolve c) := fun c => by
      rw [← hfind.resolve_eq]
      exact root_resolve hfind.wellFormed c
    rw [hfa.resolve_eq]
    have hsolve := unifyRoots_solves (i := ⟨((i.types.find a).2.find b).2, i.log⟩) ih
      hfind.wellFormed (hlt ha) (hlt hb) (hroot a) (hroot b)
      ((hres.resolve hs).refines hs hfind.toRefines)
    refine (Solves.of_sameTypes hfind hsolve).congr fun M hM => ?_
    rw [hM.resolve hs, hM.resolve hs]

/-- **Unification solves the equation of two nodes**: it leaves the models that give them one
type, and fails only when there is none. -/
theorem unify_solves (hs : i.types.WellFormed) (ha : a < i.types.size) (hb : b < i.types.size) :
    Solves i.types (fun M => M a = M b) (unify a b i) :=
  solvesWithin i.types.size a b i hs ha hb (i.types.reserve_size a)

/-! ### The most general unifier -/

/-- The substitution that the bindings of `s'` make on the unbound variables of `s`. -/
def bindings (s s' : TypeStore) (v : NodeId) : Ty :=
  match s.node? v with
  | some (.var _ none) => s'.denote v
  | _ => .var v

theorem bindings_unbound {v : NodeId} {id : Nat} (h : s.node? v = some (.var id none)) :
    bindings s s' v = s'.denote v := by
  simp only [bindings, h]

theorem bindings_missing {v : NodeId} (h : s.size ≤ v) : bindings s s' v = .var v := by
  have hnone : s.node? v = none := node?_eq_none_iff.2 h
  simp only [bindings, hnone]

/-- Afterwards every node stands for what it stood for with the bindings made in between. -/
theorem denote_eq_subst_bindings_of_lt (hs : s.WellFormed) (h : s.Extends s')
    (hs' : s'.WellFormed) {j : NodeId} (hj : j < s.size) :
    s'.denote j = (s.denote j).subst (bindings s s') := by
  -- the types of the nodes that were there, and beyond them the variables themselves
  have hM : s.Models fun j => if j < s.size then s'.denote j else .var j :=
    (h.models _ (models_denote hs')).congr hs fun j hj => (if_pos hj).symm
  have heq := hM.eq_of_agree hs (models_subst hs (bindings s s')) ?_ ?_ j
  · rwa [if_pos hj] at heq
  · intro v id hv
    rw [if_pos (lt_size_of_node? hv), denote_unbound hv, Ty.subst_variable, bindings_unbound hv]
  · intro v hv
    rw [if_neg (Nat.not_lt.2 hv), denote_missing hv, Ty.subst_variable, bindings_missing hv]

theorem denote_eq_subst_bindings (hs : s.WellFormed) (h : s.Refines s') (j : NodeId) :
    s'.denote j = (s.denote j).subst (bindings s s') := by
  by_cases hj : j < s.size
  · exact denote_eq_subst_bindings_of_lt hs h.toExtends h.wellFormed hj
  · have hj := Nat.not_lt.1 hj
    rw [denote_missing hj, denote_missing (by rw [h.size_eq]; exact hj), Ty.subst_variable,
      bindings_missing hj]

/-- A substitution whose model survives makes the same of a variable as of what it is bound to. -/
theorem eq_subst_bindings {σ : NodeId → Ty} (h : s.Refines s')
    (hσ : s'.Models fun j => (s.denote j).subst σ) (v : NodeId) :
    σ v = (bindings s s' v).subst σ := by
  unfold bindings
  split
  · rename_i id hv
    have hagree : (s.denote v).subst σ = (s'.denote v).subst σ := by
      refine hσ.eq_of_agree h.wellFormed (models_subst h.wellFormed σ) ?_ ?_ v
      · intro w id' hw
        rw [denote_unbound hw, denote_unbound (h.unbound hw)]
      · intro w hw
        rw [denote_missing hw, denote_missing (by rw [← h.size_eq]; exact hw)]
    rw [← hagree, denote_unbound hv, Ty.subst_variable]
  · rfl

/-- **Unification computes a most general unifier.**  On success the two nodes stand for one type,
and all types are those from before under a most general unifier of the two; on failure no
substitution makes the two equal.  So it succeeds exactly on types that can be made equal. -/
theorem unify_mostGeneral (hs : s.WellFormed) (ha : a < s.size) (hb : b < s.size)
    (log : Array Event) :
    (∀ u i, unify a b ⟨s, log⟩ = .ok u i →
      i.types.denote a = i.types.denote b ∧ i.types.term a = i.types.term b ∧
        ∃ θ, Ty.MostGeneral θ (s.denote a) (s.denote b) ∧
          ∀ j, i.types.denote j = (s.denote j).subst θ) ∧
    (∀ e i, unify a b ⟨s, log⟩ = .error e i →
      ∀ σ, (s.denote a).subst σ ≠ (s.denote b).subst σ) ∧
    ((∃ u i, unify a b ⟨s, log⟩ = .ok u i) ↔
      ∃ σ, (s.denote a).subst σ = (s.denote b).subst σ) := by
  have hsolve := unify_solves (i := ⟨s, log⟩) hs ha hb
  have hok : ∀ u i, unify a b ⟨s, log⟩ = .ok u i →
      i.types.denote a = i.types.denote b ∧ i.types.term a = i.types.term b ∧
        ∃ θ, Ty.MostGeneral θ (s.denote a) (s.denote b) ∧
          ∀ j, i.types.denote j = (s.denote j).subst θ := by
    intro u i h
    rw [h] at hsolve
    obtain ⟨href, hM⟩ := hsolve
    have heq : i.types.denote a = i.types.denote b := ((hM _).1 (models_denote href.wellFormed)).2
    refine ⟨heq, ?_, bindings s i.types, ⟨?_, fun σ hσ => ⟨σ, ?_⟩⟩,
      denote_eq_subst_bindings hs href⟩
    · rw [term_eq href.wellFormed (by rw [href.size_eq]; exact ha),
        term_eq href.wellFormed (by rw [href.size_eq]; exact hb), heq]
    · rw [← denote_eq_subst_bindings hs href, ← denote_eq_subst_bindings hs href, heq]
    · exact eq_subst_bindings href ((hM _).2 ⟨models_subst hs σ, hσ⟩)
  have herr : ∀ e i, unify a b ⟨s, log⟩ = .error e i →
      ∀ σ, (s.denote a).subst σ ≠ (s.denote b).subst σ := by
    intro e i h σ
    rw [h] at hsolve
    rcases e with _ | _
    · exact hsolve.2 _ (models_subst hs σ)
    · exact hsolve.elim
  refine ⟨hok, herr, ?_, ?_⟩
  · rintro ⟨u, i, h⟩
    obtain ⟨-, -, θ, hθ, -⟩ := hok u i h
    exact ⟨θ, hθ.unifies⟩
  · rintro ⟨σ, hσ⟩
    rcases hr : unify a b ⟨s, log⟩ with ⟨u, i⟩ | ⟨e, i⟩
    · exact ⟨u, i, rfl⟩
    · exact absurd hσ (herr e i hr σ)

/-- A variable that is the parameter of one function type and the result of the other:
`(t0) -> t1` against `(int) -> t0`. -/
theorem unify_mostGeneral_shared :
    let s := ((initial.fresh.2.fresh.2.function 3 [2]).2.function 2 [0]).2
    s.WellFormed ∧ 4 < s.size ∧ 5 < s.size ∧ ∃ u i θ, unify 4 5 ⟨s, #[]⟩ = .ok u i ∧
      Ty.MostGeneral θ (s.denote 4) (s.denote 5) ∧
        ∀ j, i.types.denote j = (s.denote j).subst θ := by
  intro s
  have hs : s.WellFormed :=
    wellFormed_function (wellFormed_function (wellFormed_fresh (wellFormed_fresh
      wellFormed_initial)) (by decide)) (by decide)
  have h4 : 4 < s.size := by decide
  have h5 : 5 < s.size := by decide
  obtain ⟨hok, -, hiff⟩ := unify_mostGeneral hs h4 h5 #[]
  obtain ⟨u, i, hi⟩ := hiff.2 ⟨fun _ => .base .int, rfl⟩
  obtain ⟨-, -, θ, hθ, hall⟩ := hok u i hi
  exact ⟨hs, h4, h5, u, i, θ, hi, hθ, hall⟩

end Unifier

end SimpleLang
