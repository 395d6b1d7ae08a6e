import SimpleLang.Proofs.Types.Step
import SimpleLang.Proofs.Types.Strict

/-!
# Unification as a total function

`Unifier.unify` counts levels and would fail if it ran out of them.  Here unification is given
without a count, by well-founded recursion over well-formed stores (`Inference.solve`).  Its value
is an `Inference.Run`: a chain of steps from the state it began in, and the problem it met, if
any.  So every binding it makes is one that can be made (`TypeStore.Binding`).

Each call is on a type that is properly inside of the one before, unless a variable was bound in
between, which may make the types larger but leaves one unbound variable less.  That is the
lexicographic order of the number of unbound variables and the size of the types on the left
(`Inference.lex_of_steps`).

The counted levels never run out, however many there are above the number of nodes, and the two
functions are equal (`Unifier.unifyWithin_eq_solve`).
-/

namespace SimpleLang

namespace Inference

open TypeStore

variable {i j : Inference} {a b : NodeId}

/-! ### Runs -/

/-- What unification makes of a state: steps from it, and a problem unless it succeeds. -/
structure Run (i : Inference) where
  /-- Why the two types cannot be made equal, if they cannot. -/
  problem? : Option Problem
  /-- The state at the end. -/
  after : Inference
  /-- The way there. -/
  steps : Relation.ReflTransGen Step i after

namespace Run

/-- The run as the outcome of a computation. -/
def result (r : i.Run) : EStateM.Result (Failure Problem) Inference Unit :=
  match r.problem? with
  | none => .ok () r.after
  | some p => .error (.rejected p) r.after

/-- The run that does nothing and succeeds. -/
def done (i : Inference) : i.Run := ⟨none, i, .refl⟩

/-- The run that does nothing and fails. -/
def rejected (i : Inference) (p : Problem) : i.Run := ⟨some p, i, .refl⟩

/-- The run that makes one binding. -/
def binding (b : i.types.Binding) : i.Run := ⟨none, i.bind b, .single (.bind b)⟩

/-- The run with steps before it. -/
def via (r : j.Run) (h : Relation.ReflTransGen Step i j) : i.Run :=
  ⟨r.problem?, r.after, h.trans r.steps⟩

/-- The run that goes on with another unless it fails. -/
def andThen (r : i.Run) (next : ∀ j, Relation.ReflTransGen Step i j → j.Run) : i.Run :=
  match r with
  | ⟨none, j, h⟩ => (next j h).via h
  | ⟨some p, j, h⟩ => ⟨some p, j, h⟩

end Run

/-! ### The recursion -/

/-- After some steps, what is smaller in the types from before is below in the lexicographic
order: either the types are still the same, or there are fewer unbound variables. -/
theorem lex_of_steps (hs : i.types.WellFormed) (h : Relation.ReflTransGen Step i j)
    {m n : (NodeId → Ty) → Nat} (hlt : m i.types.denote < n i.types.denote) :
    Prod.Lex (· < ·) (· < ·) (j.types.unboundVars.card, m j.types.denote)
      (i.types.unboundVars.card, n i.types.denote) := by
  have hle := Finset.card_le_card (refines_of_steps hs h).unboundVars_subset
  rcases fewer_or_same_of_steps hs h with hfewer | hsame
  · exact .left _ _ hfewer
  · rw [hsame]
    exact Prod.Lex.right' _ hle hlt

/-- The representatives of two nodes are asked for. -/
def findBoth (i : Inference) (a b : NodeId) : Inference := (i.find a).find b

theorem findBoth_sameTypes (hs : i.types.WellFormed) (a b : NodeId) :
    i.types.SameTypes (i.findBoth a b).types :=
  (find_sameTypes hs a).trans (find_sameTypes (find_sameTypes hs a).wellFormed b)

theorem findBoth_steps (hs : i.types.WellFormed) (ha : a < i.types.size)
    (hb : b < i.types.size) : Relation.ReflTransGen Step i (i.findBoth a b) :=
  .tail (.single (.find a ha)) (.find b (by
    have hsize : (i.find a).types.size = i.types.size := (find_sameTypes hs a).size_eq
    rw [hsize]
    exact hb))

/-- The run that makes an unbound variable equal to a representative, if that is possible. -/
def assign (i : Inference) (hs : i.types.WellFormed) {id : Nat} {v t : NodeId}
    (hv : i.types.node? v = some (.var id none)) (ht : t < i.types.size)
    (hr : i.types.Root t) : i.Run :=
  if ho : i.types.occurs v t = true then
    .rejected i (.typeMismatch (i.types.display v) (i.types.display t ++ " (infinite type)"))
  else .binding (.ofNotOccurs hs hv ht hr ho)

/-- The run that finds two types to be different. -/
def mismatch (i : Inference) (expected received : NodeId) : i.Run :=
  .rejected i (.typeMismatch (i.types.display expected) (i.types.display received))

section Recursion

variable (hs : i.types.WellFormed)

include hs

theorem resolve_lt_findBoth {c : NodeId} (hc : c < i.types.size) :
    i.types.resolve c < (i.findBoth a b).types.size := by
  rw [(findBoth_sameTypes hs a b).size_eq]
  exact resolve_lt_size hs hc

theorem root_findBoth (c : NodeId) : (i.findBoth a b).types.Root (i.types.resolve c) := by
  have h := findBoth_sameTypes hs a b
  rw [← h.resolve_eq]
  exact root_resolve h.wellFormed c

/-- The components that are found at a representative are those of the type itself. -/
theorem denote_eq_of_findBoth {c result : NodeId} {params : List NodeId}
    (hn : (i.findBoth a b).types.node? (i.types.resolve c) = some (.function result params)) :
    i.types.denote c = .fn (params.map i.types.denote) (i.types.denote result) := by
  have h := findBoth_sameTypes hs a b
  have hdenote := h.alike.denote_eq hs h.wellFormed
  rw [← denote_resolve hs, ← hdenote, denote_function h.wellFormed hn, hdenote,
    List.map_congr_left fun p _ => hdenote p]

end Recursion

mutual

/-- Makes two types equal.  No levels are counted. -/
def solve (i : Inference) (hs : i.types.WellFormed) (a b : NodeId) (ha : a < i.types.size)
    (hb : b < i.types.size) : i.Run :=
  let j := i.findBoth a b
  let expected := i.types.resolve a
  let received := i.types.resolve b
  have hj : j.types.WellFormed := (findBoth_sameTypes hs a b).wellFormed
  have hsteps : Relation.ReflTransGen Step i j := findBoth_steps hs ha hb
  if expected = received then (Run.done j).via hsteps
  else match hm : j.types.node? expected, hn : j.types.node? received with
    | some (.var _ none), _ =>
      (j.assign hj hm (resolve_lt_findBoth hs hb) (root_findBoth hs b)).via hsteps
    | _, some (.var _ none) =>
      (j.assign hj hn (resolve_lt_findBoth hs ha) (root_findBoth hs a)).via hsteps
    | some (.constant t), some (.constant t') =>
      if t = t' then (Run.done j).via hsteps else (j.mismatch expected received).via hsteps
    | some (.function result params), some (.function result' params') =>
      have hc : ∀ c ∈ result :: params, c < j.types.size := fun _ => hj.lt_of_mem_links hm
      have hc' : ∀ c ∈ result' :: params', c < j.types.size := fun _ => hj.lt_of_mem_links hn
      if params.length = params'.length then
        ((solve j hj result result' (hc _ List.mem_cons_self)
          (hc' _ List.mem_cons_self)).andThen fun k h =>
            have hk := refines_of_steps hj h
            solveAll k hk.wellFormed params params'
              (fun c hmem => hk.size_eq ▸ hc c (List.mem_cons_of_mem _ hmem))
              (fun c hmem => hk.size_eq ▸ hc' c (List.mem_cons_of_mem _ hmem))).via hsteps
      else (Run.rejected j (.arityMismatch params.length params'.length)).via hsteps
    | _, _ => (j.mismatch expected received).via hsteps
termination_by (i.types.unboundVars.card, sizeOf (i.types.denote a))
decreasing_by
  · refine lex_of_steps (m := fun M => sizeOf (M result)) (n := fun M => sizeOf (M a)) hs hsteps ?_
    rw [denote_eq_of_findBoth hs hm, Ty.fn.sizeOf_spec]
    omega
  · refine lex_of_steps (m := fun M => sizeOf (params.map M)) (n := fun M => sizeOf (M a)) hs
      (hsteps.trans h) ?_
    rw [denote_eq_of_findBoth hs hm, Ty.fn.sizeOf_spec]
    omega

/-- Makes the members of two lists equal, in order. -/
def solveAll (i : Inference) (hs : i.types.WellFormed) (as bs : List NodeId)
    (ha : ∀ a ∈ as, a < i.types.size) (hb : ∀ b ∈ bs, b < i.types.size) : i.Run :=
  match as, bs with
  | [], _ => .done i
  | _ :: _, [] => .done i
  | a :: as, b :: bs =>
    (solve i hs a b (ha a List.mem_cons_self) (hb b List.mem_cons_self)).andThen fun j h =>
      have hj := refines_of_steps hs h
      solveAll j hj.wellFormed as bs
        (fun c hmem => hj.size_eq ▸ ha c (List.mem_cons_of_mem _ hmem))
        (fun c hmem => hj.size_eq ▸ hb c (List.mem_cons_of_mem _ hmem))
termination_by (i.types.unboundVars.card, sizeOf (as.map i.types.denote))
decreasing_by
  · refine lex_of_steps (m := fun M => sizeOf (M a)) (n := fun M => sizeOf ((a :: as).map M)) hs
      .refl ?_
    rw [List.map_cons, List.cons.sizeOf_spec]
    omega
  · refine lex_of_steps (m := fun M => sizeOf (as.map M))
      (n := fun M => sizeOf ((a :: as).map M)) hs h ?_
    rw [List.map_cons, List.cons.sizeOf_spec]
    omega

end

end Inference

namespace Unifier

open TypeStore

variable {i : Inference} {a b : NodeId} {k : Nat}

/-! ### The counted function, case by case -/

theorem unifyWithin_eq_roots (hs : i.types.WellFormed) : unifyWithin (k + 1) a b i =
    unifyRoots k (i.types.resolve a) (i.types.resolve b) (i.findBoth a b) := by
  rw [unifyWithin_succ, (find_sameTypes hs a).resolve_eq]
  rfl

theorem not_isUnbound (h : ∀ id, i.types.node? a ≠ some (.var id none)) :
    ¬ i.types.isUnbound a = true := by
  rw [isUnbound_iff]
  rintro ⟨id, hn⟩
  exact h id hn

theorem unifyRoots_unbound {id : Nat} (hne : a ≠ b)
    (ha : i.types.node? a = some (.var id none)) : unifyRoots k a b i = assign a b i := by
  rw [unifyRoots, if_neg hne, askTypes_bind, if_pos (isUnbound_iff.2 ⟨id, ha⟩)]

theorem unifyRoots_unbound_right {id : Nat} (hne : a ≠ b)
    (ha : ∀ id, i.types.node? a ≠ some (.var id none))
    (hb : i.types.node? b = some (.var id none)) : unifyRoots k a b i = assign b a i := by
  rw [unifyRoots, if_neg hne, askTypes_bind, if_neg (not_isUnbound ha), askTypes_bind,
    if_pos (isUnbound_iff.2 ⟨id, hb⟩)]

/-- What is left to do for two nodes that are not unbound. -/
def unifyNodes (k : Nat) (a b : NodeId) : Node → Node → Unifier Unit
  | .constant t, .constant t' => if t = t' then return () else mismatch a b
  | .function result params, .function result' params' =>
    if params.length = params'.length then do
      unifyWithin k result result'
      forPairs (unifyWithin k) params params'
    else throw (.rejected (.arityMismatch params.length params'.length))
  | _, _ => mismatch a b

theorem unifyRoots_nodes {m n : Node} (hne : a ≠ b) (hm : i.types.node? a = some m)
    (hn : i.types.node? b = some n) (ha : ∀ id, i.types.node? a ≠ some (.var id none))
    (hb : ∀ id, i.types.node? b ≠ some (.var id none)) :
    unifyRoots k a b i = unifyNodes k a b m n i := by
  rw [unifyRoots, if_neg hne, askTypes_bind, if_neg (not_isUnbound ha), askTypes_bind,
    if_neg (not_isUnbound hb), bind_of_ok (node_eq hm), bind_of_ok (node_eq hn)]
  rfl

/-- Nodes that are neither both constants nor both function types differ. -/
theorem unifyNodes_clash {m n : Node}
    (hconst : ∀ t t', m = .constant t → n = .constant t' → False)
    (hfn : ∀ r ps r' ps', m = .function r ps → n = .function r' ps' → False) :
    unifyNodes k a b m n = mismatch a b := by
  rw [unifyNodes]
  · exact fun t t' => hconst t t'
  · exact fun r ps r' ps' => hfn r ps r' ps'

theorem assign_eq_result {v t : NodeId} {id : Nat} (hs : i.types.WellFormed)
    (hv : i.types.node? v = some (.var id none)) (ht : t < i.types.size)
    (hr : i.types.Root t) : assign v t i = (i.assign hs hv ht hr).result := by
  rw [Inference.assign]
  by_cases ho : i.types.occurs v t = true
  · rw [dif_pos ho, assign_infinite ho]
    rfl
  · have hne : v ≠ t := (Binding.ofNotOccurs hs hv ht hr ho).ne
    rw [dif_neg ho, assign_bound hne hv ho]
    rfl

theorem bind_eq_result {x : Unifier Unit} {f : Unit → Unifier Unit} {r : i.Run}
    {next : ∀ j, Relation.ReflTransGen Inference.Step i j → j.Run} (hx : x i = r.result)
    (hf : ∀ j h, f () j = (next j h).result) : (x >>= f) i = (r.andThen next).result := by
  obtain ⟨_ | p, j, h⟩ := r
  · rw [bind_of_ok hx]
    exact hf j h
  · exact bind_of_error hx

/-! ### The two functions are equal -/

/-- With `k` levels, unification does what it does without counting. -/
def TotalWithin (k : Nat) : Prop :=
  ∀ (a b : NodeId) (i : Inference) (hs : i.types.WellFormed) (ha : a < i.types.size)
    (hb : b < i.types.size), i.types.Reserve k a →
      unifyWithin k a b i = (i.solve hs a b ha hb).result

theorem forPairs_eq_solveAll (ih : TotalWithin k) : ∀ {as bs : List NodeId} {i : Inference}
    (hs : i.types.WellFormed) (ha : ∀ a ∈ as, a < i.types.size)
    (hb : ∀ b ∈ bs, b < i.types.size), (∀ a ∈ as, i.types.Reserve k a) →
      forPairs (unifyWithin k) as bs i = (i.solveAll hs as bs ha hb).result := by
  intro as
  induction as with
  | nil =>
    intro bs i hs ha hb _
    rw [Inference.solveAll]
    rfl
  | cons a as iha =>
    intro bs i hs ha hb hres
    cases bs with
    | nil =>
      rw [Inference.solveAll]
      rfl
    | cons b bs =>
      rw [Inference.solveAll]
      refine bind_eq_result (ih a b i hs _ _ (hres a List.mem_cons_self)) fun j h => ?_
      have hj := Inference.refines_of_steps hs h
      exact iha hj.wellFormed _ _ fun c hc =>
        (hres c (List.mem_cons_of_mem _ hc)).refines hs hj

theorem unifyWithin_eq_solve : ∀ k, TotalWithin k := by
  intro k
  induction k with
  | zero =>
    intro a b i _ ha _ hres
    exact absurd (hres.pos ha) (Nat.lt_irrefl 0)
  | succ k ih =>
    intro a b i hs ha hb hres
    have hfind := Inference.findBoth_sameTypes hs a b
    have hres' := (hres.resolve hs).refines hs hfind.toRefines
    rw [unifyWithin_eq_roots hs, Inference.solve]
    dsimp only
    by_cases hab : i.types.resolve a = i.types.resolve b
    · rw [if_pos hab, hab, unifyRoots, if_pos rfl]
      rfl
    rw [if_neg hab]
    split
    · rename_i id hm
      rw [unifyRoots_unbound hab hm]
      exact assign_eq_result _ hm _ _
    · rename_i hn hm
      rw [unifyRoots_unbound_right hab hm hn]
      exact assign_eq_result _ hn _ _
    · rename_i hm hn
      rw [unifyRoots_nodes hab hm hn (by simp [hm]) (by simp [hn]), unifyNodes]
      split <;> rfl
    · -- the result and then the parameters, each with one level less in reserve
      rename_i hm hn
      rw [unifyRoots_nodes hab hm hn (by simp [hm]) (by simp [hn]), unifyNodes]
      split
      · refine bind_eq_result (ih _ _ _ _ _ _
          (hres'.component hfind.wellFormed hm List.mem_cons_self)) fun j h => ?_
        exact forPairs_eq_solveAll ih _ _ _ fun c hc =>
          (hres'.component hfind.wellFormed hm (List.mem_cons_of_mem _ hc)).refines
            hfind.wellFormed (Inference.refines_of_steps hfind.wellFormed h)
      · rfl
    · rename_i hua hub hconst hfn
      obtain ⟨m, hm⟩ := exists_node_of_lt (Inference.resolve_lt_findBoth (a := a) (b := b) hs ha)
      obtain ⟨n, hn⟩ := exists_node_of_lt (Inference.resolve_lt_findBoth (a := a) (b := b) hs hb)
      rw [unifyRoots_nodes hab hm hn hua hub, unifyNodes_clash]
      · rfl
      · rintro t t' rfl rfl
        exact hconst t t' hm hn
      · rintro r ps r' ps' rfl rfl
        exact hfn r ps r' ps' hm hn

/-- Any number of levels from the number of nodes on will do. -/
theorem unifyWithin_eq_solve_of_le (hs : i.types.WellFormed) (ha : a < i.types.size)
    (hb : b < i.types.size) (hk : i.types.size ≤ k) :
    unifyWithin k a b i = (i.solve hs a b ha hb).result :=
  unifyWithin_eq_solve k a b i hs ha hb ⟨∅, by simp, by simpa using hk⟩

theorem unify_eq_solve (hs : i.types.WellFormed) (ha : a < i.types.size)
    (hb : b < i.types.size) : unify a b i = (i.solve hs a b ha hb).result :=
  unifyWithin_eq_solve_of_le hs ha hb le_rfl

theorem strict_unify_eq (hs : i.types.WellFormed) (ha : a < i.types.size)
    (hb : b < i.types.size) : Access.strict.unify a b i = unify a b i := by
  have h := Access.strict_faithful.simulates.unify (i := i) ⟨rfl, hs⟩ ha hb
  generalize unify a b i = r, Access.strict.unify a b i = r' at h
  cases h with
  | ok hsame => rw [hsame.1.1]
  | error hsame => rw [hsame.1.1]

/-- What unification does to a state, it does by steps, and there is no third way to end. -/
theorem unify_ends (hs : i.types.WellFormed) (ha : a < i.types.size) (hb : b < i.types.size) :
    ∃ i', Relation.ReflTransGen Inference.Step i i' ∧
      (unify a b i = .ok () i' ∨ ∃ p, unify a b i = .error (.rejected p) i') := by
  rw [unify_eq_solve hs ha hb]
  obtain ⟨_ | p, i', hsteps⟩ := i.solve hs a b ha hb
  · exact ⟨i', hsteps, .inl rfl⟩
  · exact ⟨i', hsteps, .inr ⟨p, rfl⟩⟩

/-- **Unification terminates, and never breaks a rule of the store.**  On a store whose links stay
inside and never run in a circle, and for any two of its nodes, it comes to an end by steps that
each ask for a representative or bind an unbound variable to another node that does not mention
it, and then it has made the two equal or rejects them.  It is not stopped by counting levels: it
is the total function, whatever the count is from the number of nodes on.  Nor do the loops inside
of it ever look at a node that is missing, or stop before their end. -/
theorem unify_total (hs : i.types.WellFormed) (ha : a < i.types.size) (hb : b < i.types.size) :
    (∃ i', Relation.ReflTransGen Inference.Step i i' ∧
      (unify a b i = .ok () i' ∨ ∃ p, unify a b i = .error (.rejected p) i')) ∧
    unify a b i = (i.solve hs a b ha hb).result ∧
    (∀ levels ≥ i.types.size, unifyWithin levels a b i = (i.solve hs a b ha hb).result) ∧
    Access.strict.unify a b i = unify a b i :=
  ⟨unify_ends hs ha hb, unify_eq_solve hs ha hb,
    fun _ hk => unifyWithin_eq_solve_of_le hs ha hb hk, strict_unify_eq hs ha hb⟩

/-- The parameters of `(t0, t1) -> int` and `(t1, (t0) -> int) -> int`: what the first two are made
equal by lets the second variable appear in its own type. -/
theorem unify_total_infinite :
    let s := (((initial.fresh.2.fresh.2.function 0 [2]).2.function 0 [2, 3]).2.function 0 [3, 4]).2
    s.WellFormed ∧ ∃ i' p, Relation.ReflTransGen Inference.Step ⟨s, #[]⟩ i' ∧
      unify 5 6 ⟨s, #[]⟩ = .error (.rejected p) i' ∧
      p = .typeMismatch "t1" "(t1) -> int (infinite type)" ∧
      i'.log = #[.unified "t0" "t1", .bound 0 3] := by
  intro s
  have hs : s.WellFormed :=
    wellFormed_function (wellFormed_function (wellFormed_function (wellFormed_fresh
      (wellFormed_fresh wellFormed_initial)) (by decide)) (by decide)) (by decide)
  have hrun : (match unify 5 6 ⟨s, #[]⟩ with
      | .error (.rejected p) i' => some (p, i'.log)
      | _ => none) = some (.typeMismatch "t1" "(t1) -> int (infinite type)",
        #[.unified "t0" "t1", .bound 0 3]) := by decide +kernel
  obtain ⟨⟨i', hsteps, hok | ⟨p, herror⟩⟩, -⟩ :=
    unify_total (i := ⟨s, #[]⟩) (a := 5) (b := 6) hs (by decide) (by decide)
  · rw [hok] at hrun
    cases hrun
  · rw [herror] at hrun
    obtain ⟨hp, hlog⟩ := Prod.mk.inj (Option.some.inj hrun)
    exact ⟨hs, i', p, hsteps, herror, hp, hlog⟩

end Unifier

end SimpleLang
