import SimpleLang.Proofs.Types.Unify

/-!
# Ways to read a store

Unification reads the store in four ways: it asks for representatives, whether a variable is
unbound, whether a variable appears in a type, and how a type is shown.  An `Access` is a choice
of how these four are done, and `Access.unify` is unification over it.

An access *simulates* the store's own one through a relation `R` of states
(`Access.Simulates`) when from related states the four give the same answers and lead to related
states, and when `R` is kept by what unification itself does to a store.  Then unification over
the access and unification proper come to the same outcome, in related states
(`Access.Simulates.unify`).  An access that does on well-formed stores what the store's own
operations do is *faithful*, and simulates them in the very same states (`Access.Same`).
-/

namespace SimpleLang

/-- How a check reads its store of types. -/
structure Access where
  /-- The representative of a node. -/
  find : NodeId → Unifier NodeId
  /-- Whether a node is a variable that is not bound. -/
  isUnbound : NodeId → Unifier Bool
  /-- Whether a variable appears in a type. -/
  occurs : NodeId → NodeId → Unifier Bool
  /-- A type as it is shown. -/
  display : NodeId → Unifier String

namespace Access

/-- The store's own operations. -/
def standard : Access where
  find := Unifier.find
  isUnbound i := Unifier.askTypes (·.isUnbound i)
  occurs var type := Unifier.askTypes (·.occurs var type)
  display i := Unifier.askTypes (·.display i)

section Unification

variable (A : Access)

/-- Makes an unbound variable equal to a type, which must not contain it. -/
def assign (var target : NodeId) : Unifier Unit := do
  let shownVar ← A.display var
  let shownTarget ← A.display target
  if ← A.occurs var target then
    throw (.rejected (.typeMismatch shownVar (shownTarget ++ " (infinite type)")))
  else
    Unifier.note (.unified shownVar shownTarget)
    Unifier.bindTo var target

/-- Rejects two types that differ. -/
def mismatch (expected received : NodeId) : Unifier Unit := do
  throw (.rejected (.typeMismatch (← A.display expected) (← A.display received)))

/-- Makes two types equal that are at most `n` levels deep. -/
def unifyWithin : Nat → NodeId → NodeId → Unifier Unit
  | 0, _, _ => throw (.breach .circularType)
  | n + 1, expected, received => do
    let expected ← A.find expected
    let received ← A.find received
    if expected = received then return ()
    else if ← A.isUnbound expected then A.assign expected received
    else if ← A.isUnbound received then A.assign received expected
    else match ← Unifier.node expected, ← Unifier.node received with
      | .constant a, .constant b => if a = b then return () else A.mismatch expected received
      | .function result params, .function result' params' =>
        if params.length = params'.length then
          unifyWithin n result result'
          Unifier.forPairs (unifyWithin n) params params'
        else throw (.rejected (.arityMismatch params.length params'.length))
      | _, _ => A.mismatch expected received

/-- Makes two types equal. -/
def unify (expected received : NodeId) : Unifier Unit := do
  A.unifyWithin (← Unifier.askTypes (·.size)) expected received

end Unification

end Access

/-! ### The same outcome -/

/-- Two computations came to the same outcome, in related states. -/
inductive SameOutcome {ε σ α : Type} (R : σ → σ → Prop) :
    EStateM.Result ε σ α → EStateM.Result ε σ α → Prop
  /-- Both give the same result. -/
  | ok {a : α} {s s' : σ} : R s s' → SameOutcome R (.ok a s) (.ok a s')
  /-- Both fail in the same way. -/
  | error {e : ε} {s s' : σ} : R s s' → SameOutcome R (.error e s) (.error e s')

theorem SameOutcome.bind {ε σ α β : Type} {R : σ → σ → Prop} {x x' : EStateM ε σ α}
    {f f' : α → EStateM ε σ β} {s s' : σ} (hx : SameOutcome R (x s) (x' s'))
    (hf : ∀ a t t', R t t' → SameOutcome R (f a t) (f' a t')) :
    SameOutcome R ((x >>= f) s) ((x' >>= f') s') := by
  change SameOutcome R (EStateM.bind x f s) (EStateM.bind x' f' s')
  unfold EStateM.bind
  generalize x s = r, x' s' = r' at hx
  cases hx with
  | ok h => exact hf _ _ _ h
  | error h => exact .error h

namespace Access

open TypeStore

/-- The access reads a related state as the store's own operations read the state, and the
relation is kept by all that happens to a store. -/
structure Simulates (A : Access) (R : Inference → Inference → Prop) : Prop where
  /-- The first store is well formed. -/
  wellFormed : ∀ {i i'}, R i i' → i.types.WellFormed
  /-- The stores have the same number of nodes. -/
  size_eq : ∀ {i i'}, R i i' → i'.types.size = i.types.size
  /-- They have the same number of variables. -/
  varCount_eq : ∀ {i i'}, R i i' → i'.types.varCount = i.types.varCount
  /-- Representatives are the same nodes. -/
  root_eq : ∀ {i i' a}, R i i' → i.types.Root a → i'.types.node? a = i.types.node? a
  /-- Both logs may get the same event. -/
  note : ∀ {i i'} (e : Event), R i i' → R { i with log := i.log.push e }
    { i' with log := i'.log.push e }
  /-- Both stores may get a variable. -/
  fresh : ∀ {i i'}, R i i' → R { i with types := i.types.fresh.2 }
    { i' with types := i'.types.fresh.2 }
  /-- Both stores may get the same function type. -/
  function : ∀ {i i' result params}, R i i' → (∀ j ∈ result :: params, j < i.types.size) →
    R { i with types := (i.types.function result params).2 }
      { i' with types := (i'.types.function result params).2 }
  /-- A variable may be bound in both to a representative that does not mention it. -/
  bind : ∀ {i i' v t id}, R i i' → i.types.node? v = some (.var id none) → t < i.types.size →
    i.types.Root t → ¬ (i.types.denote t).Mentions v →
    R { i with types := i.types.set v (.var id (some t)) }
      { i' with types := i'.types.set v (.var id (some t)) }
  /-- The same representatives are found. -/
  find : ∀ {i i' a}, R i i' → a < i.types.size → ∃ j', A.find a i' = .ok (i.types.resolve a) j' ∧
    R { i with types := (i.types.find a).2 } j'
  /-- The same representatives are unbound. -/
  isUnbound : ∀ {i i' a}, R i i' → a < i.types.size → i.types.Root a →
    A.isUnbound a i' = .ok (i.types.isUnbound a) i'
  /-- The same variables appear in types. -/
  occurs : ∀ {i i' v t}, R i i' → v < i.types.size → t < i.types.size →
    A.occurs v t i' = .ok (i.types.occurs v t) i'
  /-- Types are shown the same. -/
  display : ∀ {i i' a}, R i i' → a < i.types.size →
    A.display a i' = .ok (i.types.display a) i'

namespace Simulates

variable {A : Access} {R : Inference → Inference → Prop} {i i' : Inference} {a b : NodeId}
  {n : Nat}

/-- The states are related and have so many nodes. -/
def Sized (R : Inference → Inference → Prop) (n : Nat) (i i' : Inference) : Prop :=
  R i i' ∧ i.types.size = n

theorem assign (h : A.Simulates R) (hR : Sized R n i i') (hne : a ≠ b)
    (ha : i.types.isUnbound a = true) (hb : b < n) (hr : i.types.Root b) :
    SameOutcome (Sized R n) (Unifier.assign a b i) (A.assign a b i') := by
  obtain ⟨hR, rfl⟩ := hR
  obtain ⟨id, hv⟩ := isUnbound_iff.1 ha
  have hwf := h.wellFormed hR
  have ha := lt_size_of_node? hv
  rw [Access.assign, bind_of_ok (h.display hR ha), bind_of_ok (h.display hR hb),
    bind_of_ok (h.occurs hR ha hb)]
  by_cases ho : i.types.occurs a b = true
  · rw [Unifier.assign_infinite ho, if_pos ho]
    exact .error ⟨hR, rfl⟩
  · have hv' : i'.types.node? a = some (.var id none) :=
      (h.root_eq hR (root_of_unbound hv)).trans hv
    have hm : ¬ (i.types.denote b).Mentions a := fun hm => ho ((occurs_iff hwf hv hb).2 hm)
    have hbind := Unifier.bindTo_eq
      (i := ⟨i'.types, i'.log.push (.unified (i.types.display a) (i.types.display b))⟩) hne hv'
    rw [Unifier.assign_bound hne hv ho, if_neg ho]
    change SameOutcome _ _ (Unifier.bindTo a b ⟨i'.types, i'.log.push _⟩)
    rw [hbind]
    refine .ok ⟨?_, size_set _ _ _⟩
    exact h.note _ (h.note _ (h.bind hR hv hb hr hm))

theorem mismatch (h : A.Simulates R) (hR : Sized R n i i') (ha : a < n) (hb : b < n) :
    SameOutcome (Sized R n) (Unifier.mismatch a b i) (A.mismatch a b i') := by
  obtain ⟨hR, rfl⟩ := hR
  rw [Access.mismatch, bind_of_ok (h.display hR ha), bind_of_ok (h.display hR hb)]
  exact .error ⟨hR, rfl⟩

/-- Unification to depth `k` comes to the same outcome. -/
def SimulatesWithin (A : Access) (R : Inference → Inference → Prop) (n k : Nat) : Prop :=
  ∀ {a b : NodeId} {i i' : Inference}, Sized R n i i' → a < n → b < n →
    SameOutcome (Sized R n) (Unifier.unifyWithin k a b i) (A.unifyWithin k a b i')

theorem forPairs {k : Nat} (ih : SimulatesWithin A R n k) : ∀ {as bs : List NodeId}
    {i i' : Inference}, Sized R n i i' → (∀ a ∈ as, a < n) → (∀ b ∈ bs, b < n) →
      SameOutcome (Sized R n) (Unifier.forPairs (Unifier.unifyWithin k) as bs i)
        (Unifier.forPairs (A.unifyWithin k) as bs i') := by
  intro as
  induction as with
  | nil => exact fun hR _ _ => .ok hR
  | cons a as iha =>
    intro bs i i' hR ha hb
    cases bs with
    | nil => exact .ok hR
    | cons b bs =>
      refine (ih hR (ha a List.mem_cons_self) (hb b List.mem_cons_self)).bind fun _ t t' hR' => ?_
      exact iha hR' (fun c hc => ha c (List.mem_cons_of_mem _ hc))
        fun c hc => hb c (List.mem_cons_of_mem _ hc)

/-- What is left to do for two representatives. -/
def unifyRoots (A : Access) (k : Nat) (expected received : NodeId) : Unifier Unit := do
  if expected = received then return ()
  else if ← A.isUnbound expected then A.assign expected received
  else if ← A.isUnbound received then A.assign received expected
  else match ← Unifier.node expected, ← Unifier.node received with
    | .constant a, .constant b => if a = b then return () else A.mismatch expected received
    | .function result params, .function result' params' =>
      if params.length = params'.length then
        A.unifyWithin k result result'
        Unifier.forPairs (A.unifyWithin k) params params'
      else throw (.rejected (.arityMismatch params.length params'.length))
    | _, _ => A.mismatch expected received

theorem roots {k : Nat} (h : A.Simulates R) (ih : SimulatesWithin A R n k)
    (hR : Sized R n i i') (ha : a < n) (hb : b < n) (hra : i.types.Root a)
    (hrb : i.types.Root b) :
    SameOutcome (Sized R n) (Unifier.unifyRoots k a b i) (unifyRoots A k a b i') := by
  have hlt : ∀ {c}, c < n → c < i.types.size := fun hc => by rw [hR.2]; exact hc
  unfold Unifier.unifyRoots unifyRoots
  by_cases hab : a = b
  · rw [if_pos hab, if_pos hab]
    exact .ok hR
  rw [if_neg hab, if_neg hab, Unifier.askTypes_bind,
    bind_of_ok (h.isUnbound hR.1 (hlt ha) hra)]
  by_cases hua : i.types.isUnbound a = true
  · rw [if_pos hua, if_pos hua]
    exact h.assign hR hab hua hb hrb
  rw [if_neg hua, if_neg hua, Unifier.askTypes_bind,
    bind_of_ok (h.isUnbound hR.1 (hlt hb) hrb)]
  by_cases hub : i.types.isUnbound b = true
  · rw [if_pos hub, if_pos hub]
    exact h.assign hR (Ne.symm hab) hub ha hra
  rw [if_neg hub, if_neg hub]
  obtain ⟨m, hm⟩ := exists_node_of_lt (hlt ha)
  obtain ⟨m', hm'⟩ := exists_node_of_lt (hlt hb)
  rw [bind_of_ok (Unifier.node_eq hm), bind_of_ok (Unifier.node_eq hm'),
    bind_of_ok (Unifier.node_eq ((h.root_eq hR.1 hra).trans hm)),
    bind_of_ok (Unifier.node_eq ((h.root_eq hR.1 hrb).trans hm'))]
  have hlinks : ∀ {c m}, i.types.node? c = some m → ∀ j ∈ m.links, j < n := fun hc j hj => by
    rw [← hR.2]
    exact (h.wellFormed hR.1).lt_of_mem_links hc hj
  -- the two nodes are the same on both sides, so both sides take the same branch
  have hmis := h.mismatch hR ha hb
  rcases m with t | _ | ⟨result, params⟩
  · rcases m' with t' | _ | _
    · dsimp only
      split
      · exact .ok hR
      · exact hmis
    · exact hmis
    · exact hmis
  · exact hmis
  · rcases m' with _ | _ | ⟨result', params'⟩
    · exact hmis
    · exact hmis
    · have hc := hlinks hm
      have hc' := hlinks hm'
      rw [Node.links_function] at hc hc'
      dsimp only
      split
      · refine (ih hR (hc _ List.mem_cons_self) (hc' _ List.mem_cons_self)).bind
          fun _ t t' hR' => ?_
        exact forPairs ih hR' (fun c hc' => hc c (List.mem_cons_of_mem _ hc'))
          fun c hc'' => hc' c (List.mem_cons_of_mem _ hc'')
      · exact .error hR

theorem unifyWithin (h : A.Simulates R) : ∀ k, SimulatesWithin A R n k := by
  intro k
  induction k with
  | zero => exact fun hR _ _ => .error hR
  | succ k ih =>
    intro a b i i' hR ha hb
    obtain ⟨hR, rfl⟩ := hR
    have hwf := h.wellFormed hR
    have hfa := find_sameTypes hwf a
    obtain ⟨j₁, hj₁, hR₁⟩ := h.find hR ha
    obtain ⟨j₂, hj₂, hR₂⟩ := h.find hR₁ (a := b) (by rw [hfa.size_eq]; exact hb)
    have hfb := find_sameTypes hfa.wellFormed b
    have hfind := hfa.trans hfb
    have hroot : ∀ c, ((i.types.find a).2.find b).2.Root (i.types.resolve c) := fun c => by
      rw [← hfind.resolve_eq]
      exact root_resolve hfind.wellFormed c
    have hA : A.unifyWithin (k + 1) a b i' =
        unifyRoots A k (i.types.resolve a) (i.types.resolve b) j₂ := by
      rw [Access.unifyWithin, bind_of_ok hj₁, bind_of_ok hj₂, hfa.resolve_eq]
      rfl
    rw [Unifier.unifyWithin_succ, hA, hfa.resolve_eq]
    exact h.roots ih ⟨hR₂, hfind.size_eq⟩ (resolve_lt_size hwf ha) (resolve_lt_size hwf hb)
      (hroot a) (hroot b)

/-- **Unification over a simulating access comes to the same outcome.** -/
theorem unify (h : A.Simulates R) (hR : R i i') (ha : a < i.types.size)
    (hb : b < i.types.size) :
    SameOutcome (Sized R i.types.size) (Unifier.unify a b i) (A.unify a b i') := by
  have hrun : A.unify a b i' = A.unifyWithin i'.types.size a b i' := rfl
  rw [hrun, h.size_eq hR]
  exact h.unifyWithin i.types.size ⟨hR, rfl⟩ ha hb

end Simulates

/-! ### Accesses that change nothing -/

/-- On well-formed stores the access answers and does what the store's own operations do. -/
structure Faithful (A : Access) : Prop where
  /-- Representatives are found, and ways to them shortened. -/
  find : ∀ {i : Inference} {a : NodeId}, i.types.WellFormed → a < i.types.size →
    A.find a i = .ok (i.types.resolve a) { i with types := (i.types.find a).2 }
  /-- Unbound variables are recognised. -/
  isUnbound : ∀ {i : Inference} {a : NodeId}, i.types.WellFormed → a < i.types.size →
    A.isUnbound a i = .ok (i.types.isUnbound a) i
  /-- Variables are found in types. -/
  occurs : ∀ {i : Inference} {v t : NodeId}, i.types.WellFormed → v < i.types.size →
    t < i.types.size → A.occurs v t i = .ok (i.types.occurs v t) i
  /-- Types are shown. -/
  display : ∀ {i : Inference} {a : NodeId}, i.types.WellFormed → a < i.types.size →
    A.display a i = .ok (i.types.display a) i

/-- The states are the same, with a well-formed store. -/
def Same (i i' : Inference) : Prop := i' = i ∧ i.types.WellFormed

theorem Faithful.simulates {A : Access} (h : A.Faithful) : A.Simulates Same where
  wellFormed hR := hR.2
  size_eq hR := by rw [hR.1]
  varCount_eq hR := by rw [hR.1]
  root_eq hR _ := by rw [hR.1]
  note e hR := ⟨by rw [hR.1], hR.2⟩
  fresh hR := ⟨by rw [hR.1], wellFormed_fresh hR.2⟩
  function hR hlt := ⟨by rw [hR.1], wellFormed_function hR.2 hlt⟩
  bind hR hv ht _ hm := ⟨by rw [hR.1], bind_wellFormed hR.2 hv ht hm⟩
  find := by
    rintro i _ a ⟨rfl, hwf⟩ ha
    exact ⟨_, h.find hwf ha, rfl, (find_sameTypes hwf a).wellFormed⟩
  isUnbound := by
    rintro i _ a ⟨rfl, hwf⟩ ha _
    exact h.isUnbound hwf ha
  occurs := by
    rintro i _ v t ⟨rfl, hwf⟩ hv ht
    exact h.occurs hwf hv ht
  display := by
    rintro i _ a ⟨rfl, hwf⟩ ha
    exact h.display hwf ha

/-- The store's own operations do what they do. -/
theorem standard_faithful : standard.Faithful where
  find _ _ := rfl
  isUnbound _ _ := rfl
  occurs _ _ _ := rfl
  display _ _ := rfl

end Access

end SimpleLang
