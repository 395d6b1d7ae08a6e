import SimpleLang.Proofs.Check.Runs
import SimpleLang.Proofs.Check.Session

/-!
# What a check decides

A part of a check is started in a session and gives a result, such as the node of an expression's
type.  The typing rules relate the valuation of the session to a reading of that result, such as
the type of the expression.  The part *decides* the relation (`Checker.Decides`) when it accepts
with a result whose readings are the related ones and no others, and rejects only when no reading
is related.  "No others" means that a valuation of the session can be extended to the nodes that
were added, so that the result is read as wanted.

What a part decides follows from what its steps decide (`Checker.Decides.bind`).

## Main definitions

* `Checker.Decides s P post read r` : the outcome `r` of a part started at `s` decides `P`.
* `Checker.Infers`, `Checker.InfersAll` : the result is a node, or some nodes.
* `Checker.Requires` : there is no result.
* `Checker.Declares` : the result is some nodes, and names are declared.
-/

namespace SimpleLang.Checker

variable {α β γ δ : Type} {s s₁ s' : Session} {S : Scopes NodeId}

/-- The outcome of a part of a check that is started at `s`.  It decides, of valuations and
readings, the relation `P`; a result is read by `read` and satisfies `post`. -/
inductive Decides (s : Session) (P : Valuation → β → Prop) (post : α → Session → Prop)
    (read : α → Session → Valuation → β) : EStateM.Result (Failure Diagnostic) Session α → Prop
  /-- What is read off the result is right, and all that is right can be read off it. -/
  | accepted {a : α} {s' : Session} (grows : s.Grows s') (holds : post a s')
      (sound : ∀ M, s'.types.Admits M → P M (read a s' M))
      (complete : ∀ M b, s.types.Admits M → P M b →
        ∃ M', s'.types.Admits M' ∧ s.Agree M M' ∧ read a s' M' = b) :
      Decides s P post read (.ok a s')
  /-- Nothing is right. -/
  | rejected {d : Diagnostic} {s' : Session} (grows : s.Grows s')
      (impossible : ∀ M b, s.types.Admits M → ¬ P M b) :
      Decides s P post read (.error (.rejected d) s')

/-- The result is the node of a type, and no name is declared. -/
abbrev Infers (S : Scopes NodeId) (s : Session) (P : Valuation → GroundTy → Prop) :
    EStateM.Result (Failure Diagnostic) Session NodeId → Prop :=
  Decides s P (fun i s' => s'.scopes = S ∧ i < s'.types.size) (fun i _ M => M i)

/-- The result is the nodes of some types, and no name is declared. -/
abbrev InfersAll (S : Scopes NodeId) (s : Session) (P : Valuation → List GroundTy → Prop) :
    EStateM.Result (Failure Diagnostic) Session (List NodeId) → Prop :=
  Decides s P (fun is s' => s'.scopes = S ∧ ∀ i ∈ is, i < s'.types.size) (fun is _ M => is.map M)

/-- There is no result, and no name is declared. -/
abbrev Requires (S : Scopes NodeId) (s : Session) (P : Valuation → Prop) :
    EStateM.Result (Failure Diagnostic) Session Unit → Prop :=
  Decides s (fun M (_ : Unit) => P M) (fun _ s' => s'.scopes = S) (fun _ _ _ => ())

/-- The result is the nodes of some types, and names are declared. -/
abbrev Declares (s : Session) (P : Valuation → List GroundTy × Context → Prop) :
    EStateM.Result (Failure Diagnostic) Session (List NodeId) → Prop :=
  Decides s P (fun is s' => ∀ i ∈ is, i < s'.types.size)
    (fun is s' M => (is.map M, s'.scopes.context M))

/-! ### Rules -/

namespace Decides

variable {P : Valuation → β → Prop} {P' R : Valuation → δ → Prop} {Q : Valuation → β → δ → Prop}
  {post : α → Session → Prop} {post' : γ → Session → Prop}
  {read : α → Session → Valuation → β} {read' : γ → Session → Valuation → δ}
  {r : EStateM.Result (Failure Diagnostic) Session α}

/-- Another relation, read off the same results in another way. -/
theorem conseq {post' : α → Session → Prop} {read' : α → Session → Valuation → δ}
    (h : Decides s P post read r) (hpost : ∀ a s', s.Grows s' → post a s' → post' a s')
    (sound : ∀ a s' M, s.Grows s' → post a s' → s'.types.Admits M → P M (read a s' M) →
      P' M (read' a s' M))
    (complete : ∀ M d, s.types.Admits M → P' M d → ∃ b, P M b ∧
      ∀ a s' M', s.Grows s' → post a s' → s.Agree M M' → read a s' M' = b → read' a s' M' = d) :
    Decides s P' post' read' r := by
  cases h with
  | accepted hg hp hsound hcomplete =>
    refine .accepted hg (hpost _ _ hg hp) (fun M hM => sound _ _ M hg hp hM (hsound M hM)) ?_
    intro M d hM hd
    obtain ⟨b, hb, hread⟩ := complete M d hM hd
    obtain ⟨M', hM', hagree, hb'⟩ := hcomplete M b hM hb
    exact ⟨M', hM', hagree, hread _ _ M' hg hp hagree hb'⟩
  | rejected hg himp =>
    refine .rejected hg fun M d hM hd => ?_
    obtain ⟨b, hb, -⟩ := complete M d hM hd
    exact himp M b hM hb

/-- An equivalent relation. -/
theorem congr {P' : Valuation → β → Prop} (h : Decides s P post read r)
    (hP : ∀ M b, s.types.Admits M → (P' M b ↔ P M b)) : Decides s P' post read r :=
  h.conseq (fun _ _ _ hp => hp)
    (fun _ _ M hg _ hM hb => (hP M _ (hg.types.admits hM)).2 hb)
    fun M b hM hb => ⟨b, (hP M b hM).1 hb, fun _ _ _ _ _ _ h => h⟩

theorem imp {post' : α → Session → Prop} (h : Decides s P post read r)
    (hpost : ∀ a s', post a s' → post' a s') : Decides s P post' read r :=
  h.conseq (fun a s' _ hp => hpost a s' hp) (fun _ _ _ _ _ _ hb => hb)
    fun _ b _ hb => ⟨b, hb, fun _ _ _ _ _ _ h => h⟩

/-- First one part, then another that depends on its result. -/
theorem bind {x : Checker α} {f : α → Checker γ} (hx : Decides s P post read (x s))
    (hR : ∀ M d, s.types.Admits M → (R M d ↔ ∃ b, P M b ∧ Q M b d))
    (hQ : ∀ M M', s.Agree M M' → Q M' = Q M)
    (hf : ∀ a s', s.Grows s' → post a s' → (∀ M, s'.types.Admits M → P M (read a s' M)) →
      Decides s' (fun M d => Q M (read a s' M) d) post' read' (f a s')) :
    Decides s R post' read' ((x >>= f) s) := by
  change Decides s R post' read' (EStateM.bind x f s)
  unfold EStateM.bind
  generalize x s = rx at hx
  cases hx with
  | @accepted a s₁ hg hp hsound hcomplete =>
    have h := hf a s₁ hg hp hsound
    change Decides s R post' read' (f a s₁)
    -- a valuation for the second part is one for the first, with the result read right
    have hnext : ∀ M d, s.types.Admits M → R M d →
        ∃ M₁, s₁.types.Admits M₁ ∧ s.Agree M M₁ ∧ Q M₁ (read a s₁ M₁) d := by
      intro M d hM hd
      obtain ⟨b, hb, hq⟩ := (hR M d hM).1 hd
      obtain ⟨M₁, hM₁, hagree, rfl⟩ := hcomplete M b hM hb
      exact ⟨M₁, hM₁, hagree, by rw [hQ M M₁ hagree]; exact hq⟩
    generalize f a s₁ = rf at h
    cases h with
    | accepted hg' hp' hsound' hcomplete' =>
      refine .accepted (hg.trans hg') hp' (fun M hM => ?_) fun M d hM hd => ?_
      · have hM₁ := hg'.types.admits hM
        exact (hR M _ (hg.types.admits hM₁)).2 ⟨_, hsound M hM₁, hsound' M hM⟩
      · obtain ⟨M₁, hM₁, hagree, hq⟩ := hnext M d hM hd
        obtain ⟨M₂, hM₂, hagree', hd'⟩ := hcomplete' M₁ d hM₁ hq
        refine ⟨M₂, hM₂, fun i hi => ?_, hd'⟩
        rw [hagree' i (hg.lt hi), hagree i hi]
    | rejected hg' himp =>
      refine .rejected (hg.trans hg') fun M d hM hd => ?_
      obtain ⟨M₁, hM₁, -, hq⟩ := hnext M d hM hd
      exact himp M₁ d hM₁ hq
  | rejected hg himp =>
    refine .rejected hg fun M d hM hd => ?_
    obtain ⟨b, hb, -⟩ := (hR M d hM).1 hd
    exact himp M b hM hb

/-- First a condition, then another part. -/
theorem require {E : Valuation → Prop} {x : Checker Unit} {f : Unit → Checker γ}
    {Q : Valuation → δ → Prop} (hx : Requires S s E (x s))
    (hR : ∀ M d, s.types.Admits M → (R M d ↔ E M ∧ Q M d))
    (hQ : ∀ M M', s.Agree M M' → Q M' = Q M)
    (hf : ∀ s', s.Grows s' → s'.scopes = S → (∀ M, s'.types.Admits M → E M) →
      Decides s' Q post' read' (f () s')) :
    Decides s R post' read' ((x >>= f) s) := by
  refine hx.bind (Q := fun M _ d => Q M d) (fun M d hM => ?_)
    (fun M M' hagree => by rw [hQ M M' hagree]) fun _ s' hg hp hsound => hf s' hg hp hsound
  rw [hR M d hM, exists_const]

theorem pure {a : α} (hs : s.Valid) (hpost : post a s)
    (hP : ∀ M b, s.types.Admits M → (P M b ↔ b = read a s M)) :
    Decides s P post read ((Pure.pure a : Checker α) s) :=
  .accepted (.refl hs) hpost (fun M hM => (hP M _ hM).2 rfl)
    fun M b hM hb => ⟨M, hM, .refl s M, ((hP M b hM).1 hb).symm⟩

theorem reject {problem : Problem} {position : Position} (hs : s.Valid)
    (hP : ∀ M b, s.types.Admits M → ¬ P M b) :
    Decides s P post read (Checker.reject problem position s) :=
  .rejected (.refl hs) hP

/-- The result of a part with something done to it that keeps the session. -/
theorem map {x : Checker α} {g : α → γ} {h : Valuation → β → δ}
    (hx : Decides s P post read (x s))
    (hR : ∀ M d, s.types.Admits M → (R M d ↔ ∃ b, P M b ∧ d = h M b))
    (hh : ∀ M M', s.Agree M M' → h M' = h M)
    (hpost : ∀ a s', s.Grows s' → post a s' → post' (g a) s')
    (hread : ∀ a s' M, read' (g a) s' M = h M (read a s' M)) :
    Decides s R post' read' ((do let a ← x; return g a : Checker γ) s) := by
  refine hx.bind (Q := fun M b d => d = h M b) hR (fun M M' hagree => by rw [hh M M' hagree]) ?_
  intro a s' hg hp _
  exact .pure hg.valid (hpost a s' hg hp) fun M d _ => by rw [hread]

/-- A step that changes nothing but the log. -/
theorem quiet {x : Checker γ} {f : γ → Checker α} {c : γ} (hx : x s = .ok c s₁)
    (ht : s₁.types = s.types) (hS : s₁.scopes = s.scopes) (hr : s₁.returnType = s.returnType)
    (h : Decides s₁ P post read (f c s₁)) : Decides s P post read ((x >>= f) s) := by
  have hgrows : ∀ {s'}, s₁.Grows s' → s.Grows s' := fun hg =>
    ⟨hg.valid, ht ▸ hg.types, hg.outer.trans (by rw [hS]), hg.returnType.trans hr⟩
  rw [bind_of_ok hx]
  generalize f c s₁ = r at h
  cases h with
  | accepted hg hp hsound hcomplete =>
    refine .accepted (hgrows hg) hp hsound fun M b hM hb => ?_
    obtain ⟨M', hM', hagree, hb'⟩ := hcomplete M b (ht ▸ hM) hb
    exact ⟨M', hM', fun i hi => hagree i (ht ▸ hi), hb'⟩
  | rejected hg himp => exact .rejected (hgrows hg) fun M b hM => himp M b (ht ▸ hM)

theorem noted {e : Event} {f : Unit → Checker α} (hs : s.Valid)
    (h : ∀ s', s'.Valid → s'.types = s.types → s'.scopes = s.scopes →
      s'.returnType = s.returnType → Decides s' P post read (f () s')) :
    Decides s P post read ((note e >>= f) s) :=
  .quiet (show note e s = .ok () _ from rfl) rfl rfl rfl
    (h _ (hs.of_extends hs.types (.refl _) rfl rfl) rfl rfl rfl)

/-- The type of one part, then those of others. -/
theorem cons {P : Valuation → GroundTy → Prop} {Q : Valuation → List GroundTy → Prop}
    {x : Checker NodeId} {y : Checker (List NodeId)} (hx : Infers S s P (x s))
    (hQ : ∀ M M', s.Agree M M' → Q M' = Q M)
    (hy : ∀ s', s.Grows s' → s'.scopes = S → InfersAll S s' Q (y s')) :
    InfersAll S s (fun M τs => ∃ τ, P M τ ∧ ∃ τs', Q M τs' ∧ τs = τ :: τs')
      ((do
        let i ← x
        return i :: (← y) : Checker (List NodeId)) s) := by
  refine hx.bind (Q := fun M τ τs => ∃ τs', Q M τs' ∧ τs = τ :: τs') (fun M τs _ => Iff.rfl)
    (fun M M' hagree => by rw [hQ M M' hagree]) ?_
  rintro i s₁ hg₁ ⟨hS₁, hi⟩ _
  refine (hy s₁ hg₁ hS₁).map (h := fun M τs => M i :: τs) (fun M τs _ => Iff.rfl)
    (fun M M' hagree => by rw [hagree i hi]) ?_ fun _ _ _ => rfl
  rintro is s₂ hg₂ ⟨hS₂, his⟩
  exact ⟨hS₂, List.forall_mem_cons.2 ⟨hg₂.lt hi, his⟩⟩

/-! ### Contexts -/

variable {read₁ : α → Valuation → β}

/-- What is in force after a part can be forgotten. -/
theorem forgetContext {P : Valuation → β × Context → Prop}
    (h : Decides s P post (fun a s' M => (read₁ a M, s'.scopes.context M)) r) :
    Decides s (fun M b => ∃ Γ, P M (b, Γ)) post (fun a _ M => read₁ a M) r := by
  refine h.conseq (fun _ _ _ hp => hp) (fun _ s' M _ _ _ hb => ⟨s'.scopes.context M, hb⟩) ?_
  rintro M b - ⟨Γ, hb⟩
  exact ⟨(b, Γ), hb, fun _ _ _ _ _ _ h => (Prod.mk.inj h).1⟩

/-- If a part declares nothing, what was in force still is. -/
theorem keepContext (hs : s.Valid)
    (h : Decides s P post (fun a _ M => read₁ a M) r) (hpost : ∀ a s', post a s' →
      s'.scopes = s.scopes) :
    Decides s (fun M (b : β × Context) => P M b.1 ∧ b.2 = s.scopes.context M) post
      (fun a s' M => (read₁ a M, s'.scopes.context M)) r := by
  refine h.conseq (fun _ _ _ hp => hp) (fun a s' M _ hp _ hb => ⟨hb, ?_⟩) ?_
  · rw [hpost a s' hp]
  · rintro M ⟨b, Γ⟩ - ⟨hb, rfl⟩
    refine ⟨b, hb, fun a s' M' _ hp hagree hread => ?_⟩
    rw [hread, hpost a s' hp, hs.context_congr rfl hagree]

/-! ### Work between two steps -/

/-- Work that is followed by something in any case.  What follows puts the session right. -/
theorem andThenAlways {work : Checker α} {after : Checker Unit} {post' : α → Session → Prop}
    (hw : Decides s₁ P post (fun a _ M => read₁ a M) (work s₁)) (ht : s₁.types = s.types)
    (hafter : ∀ s₂, s₁.Grows s₂ → ∃ s₃, after s₂ = .ok () s₃ ∧ s.Grows s₃ ∧
      s₃.types = s₂.types ∧ ∀ a, post a s₂ → post' a s₃) :
    Decides s P post' (fun a _ M => read₁ a M) (Checker.andThenAlways work after s₁) := by
  generalize hr : work s₁ = r at hw
  cases hw with
  | @accepted a s₂ hg hp hsound hcomplete =>
    obtain ⟨s₃, heq, hg₃, ht₃, hpost⟩ := hafter s₂ hg
    rw [andThenAlways_of_ok hr heq]
    refine .accepted hg₃ (hpost a hp) (fun M hM => hsound M (ht₃ ▸ hM)) fun M b hM hb => ?_
    obtain ⟨M', hM', hagree, hb'⟩ := hcomplete M b (ht ▸ hM) hb
    exact ⟨M', ht₃ ▸ hM', fun i hi => hagree i (ht ▸ hi), hb'⟩
  | @rejected d s₂ hg himp =>
    obtain ⟨s₃, heq, hg₃, -, -⟩ := hafter s₂ hg
    rw [andThenAlways_of_rejected hr heq]
    exact .rejected hg₃ fun M b hM => himp M b (ht ▸ hM)

end Decides

end SimpleLang.Checker
