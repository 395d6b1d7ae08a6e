import SimpleLang.Proofs.Check.Program

/-!
# Soundness, completeness and principal types

Inference and the typing rules agree.  If a program is accepted, the store that the check ends
with holds all its typings: give ground types to the unbound variables, in any way, and the nodes
of the declarations have types that make the program well typed (`Program.typed_of_check`).
Every typing comes about like this, and a program that is rejected has none
(`Program.check_principal`).

Both are read off what the check of a program decides, `Checker.itemNodes_decides`.
-/

namespace SimpleLang

/-- The span of what is not read from a file. -/
def Span.nowhere : Span := ⟨⟨0, ""⟩, ⟨0, ""⟩⟩

namespace Program

variable {p : Program} {s : Session}

/-- The nodes of a program's declarations, if it is accepted. -/
def nodes? (p : Program) : Option (ProgramTypes NodeId) :=
  match Checker.itemNodes p .initial with
  | .ok nodes _ => some nodes
  | .error _ _ => none

/-! ### The check and its parts -/

theorem items_run (p : Program) : Checker.items p .initial =
    EStateM.map (fun _ => ()) (Checker.itemNodes p) .initial := by
  rw [Checker.items_eq]
  rfl

/-- Accepting a program only adds to the log. -/
theorem check_of_ok {nodes : ProgramTypes NodeId}
    (h : Checker.itemNodes p .initial = .ok nodes s) :
    p.check = .ok () { s with log := s.log.push (.wellTyped s.types.varCount) } := by
  have hitems : Checker.items p .initial = .ok () s := by
    rw [items_run, EStateM.map, h]
  change Checker.program p .initial = _
  rw [Checker.program, hitems]
  rfl

theorem check_of_rejected {d : Diagnostic}
    (h : Checker.itemNodes p .initial = .error (.rejected d) s) :
    p.check = .error (.rejected d) { s with log := s.log.push (.failed d) } := by
  have hitems : Checker.items p .initial = .error (.rejected d) s := by
    rw [items_run, EStateM.map, h]
  change Checker.program p .initial = _
  rw [Checker.program, hitems]
  rfl

/-- A session whose store holds the typings of a program with the nodes given: those, and no
others, that it admits. -/
structure Holds (p : Program) (nodes : ProgramTypes NodeId) (s : Session) : Prop where
  /-- The store is valid. -/
  valid : s.types.Valid
  /-- What it admits is a typing. -/
  sound : ∀ M, s.types.Admits M → ProgramTyped p (nodes.map M) (s.scopes.context M)
  /-- It admits every typing. -/
  complete : ∀ t, p.WellTyped t → ∃ M, s.types.Admits M ∧ nodes.map M = t
  /-- And with it the context at the end. -/
  contexts : ∀ t Γ, ProgramTyped p t Γ → ∃ M, s.types.Admits M ∧ s.scopes.context M = Γ

theorem Holds.wellFormed {nodes : ProgramTypes NodeId} (h : p.Holds nodes s) :
    s.types.WellFormed :=
  h.valid.toWellFormed

/-- What a check can come to. -/
theorem check_cases (p : Program) :
    (∃ s nodes, p.check = .ok () s ∧ p.nodes? = some nodes ∧ p.Holds nodes s) ∨
      (∃ d s, p.check = .error (.rejected d) s) ∧ p.nodes? = none ∧ ∀ t, ¬ p.WellTyped t := by
  -- any valuation will do to start from, as the first session has no variables
  have hinitial := TypeStore.admits_groundAt TypeStore.wellFormed_initial fun _ => .base .int
  have h := Checker.itemNodes_decides p
  generalize hr : Checker.itemNodes p .initial = r at h
  cases h with
  | @accepted nodes s hg _ hsound hcomplete =>
    have hnodes : p.nodes? = some nodes := by rw [nodes?, hr]
    refine .inl ⟨_, nodes, check_of_ok hr, hnodes, hg.valid.types, hsound, ?_, ?_⟩
    · rintro t ⟨Γ, ht⟩
      obtain ⟨M, hM, -, heq⟩ := hcomplete _ (t, Γ) hinitial ht
      exact ⟨M, hM, (Prod.mk.inj heq).1⟩
    · intro t Γ ht
      obtain ⟨M, hM, -, heq⟩ := hcomplete _ (t, Γ) hinitial ht
      exact ⟨M, hM, (Prod.mk.inj heq).2⟩
  | rejected _ himp =>
    have hnodes : p.nodes? = none := by rw [nodes?, hr]
    refine .inr ⟨⟨_, _, check_of_rejected hr⟩, hnodes, ?_⟩
    rintro t ⟨Γ, ht⟩
    exact himp _ (t, Γ) hinitial ht

/-- A program has nodes for its declarations exactly if it is accepted. -/
theorem isSome_nodes?_iff : p.nodes?.isSome ↔ ∃ s, p.check = .ok () s := by
  rcases p.check_cases with ⟨s, nodes, hs, hnodes, -⟩ | ⟨⟨d, s, hs⟩, hnodes, -⟩
  · rw [hnodes]
    exact iff_of_true rfl ⟨s, hs⟩
  · rw [hnodes, hs]
    exact iff_of_false (by simp) (by simp)

/-! ### Main results -/

/-- **Soundness of inference.**  If a program is accepted then, whatever ground types are given to
the unbound variables, the types of its declarations and functions make it well typed, and the
names that are in force at the end have the types that the check ends with. -/
theorem typed_of_check {u : Unit} (h : p.check = .ok u s) :
    ∃ nodes, p.nodes? = some nodes ∧ ∀ g : Valuation,
      ProgramTyped p (nodes.map (s.types.groundAt g)) (s.scopes.context (s.types.groundAt g)) := by
  rcases p.check_cases with ⟨s', nodes, hs', hnodes, hold⟩ | ⟨⟨d, s', hs'⟩, -, -⟩
  · rw [h] at hs'
    cases hs'
    exact ⟨nodes, hnodes, fun g => hold.sound _ (TypeStore.admits_groundAt hold.wellFormed g)⟩
  · rw [h] at hs'
    cases hs'

/-- `id(x) { return x; }` with a global `y` and the statement `y = id(y);`. -/
def identity : Program where
  functions := [⟨"id", [⟨"x", none, .nowhere⟩],
    .block .nowhere [] [.return .nowhere (.name .nowhere "x")], .nowhere⟩]
  globals := [⟨"y", none, .nowhere⟩]
  main := [.assign .nowhere "y" (.call .nowhere "id" [.name .nowhere "y"])]

/-- One variable is left unbound, and all types follow from it. -/
theorem typed_of_check_identity :
    ∃ s, identity.check = .ok () s ∧ ∃ nodes, identity.nodes? = some nodes ∧ ∀ g : Valuation,
      ProgramTyped identity (nodes.map (s.types.groundAt g))
        (s.scopes.context (s.types.groundAt g)) := by
  have hnodes : identity.nodes?.isSome = true := by decide +kernel
  obtain ⟨s, hs⟩ := isSome_nodes?_iff.1 hnodes
  exact ⟨s, hs, typed_of_check hs⟩

/-- **Completeness and principality of inference.**  A program that can be typed is accepted, and
each of its typings comes from ground types for the unbound variables.  So a program that is
rejected, for whatever reason, cannot be typed. -/
theorem check_principal (p : Program) :
    (∀ t, p.WellTyped t → ∃ s nodes, p.check = .ok () s ∧ p.nodes? = some nodes ∧
      ∃ g : Valuation, t = nodes.map (s.types.groundAt g)) ∧
    ∀ e s, p.check = .error e s → ∀ t, ¬ p.WellTyped t := by
  rcases p.check_cases with ⟨s, nodes, hs, hnodes, hold⟩ | ⟨⟨d, s, hs⟩, -, himp⟩
  · refine ⟨fun t ht => ⟨s, nodes, hs, hnodes, ?_⟩, fun e s' he => ?_⟩
    · obtain ⟨M, hM, rfl⟩ := hold.complete t ht
      refine ⟨M, ?_⟩
      rw [← show M = s.types.groundAt M from funext (hM.eq_groundAt hold.wellFormed)]
    · rw [hs] at he
      cases he
  · exact ⟨fun t ht => absurd ht (himp t), fun _ _ _ => himp⟩

/-- `f(x) { return x(x); }`, which no finite type fits. -/
def selfApplication : Program where
  functions := [⟨"f", [⟨"x", none, .nowhere⟩],
    .block .nowhere [] [.return .nowhere (.call .nowhere "x" [.name .nowhere "x"])], .nowhere⟩]
  globals := []
  main := []

theorem identity_wellTyped (τ : GroundTy) :
    identity.WellTyped ⟨[⟨[τ], τ, []⟩], [τ], []⟩ := by
  have hallows : ∀ x, Decl.Allows ⟨x, none, .nowhere⟩ τ := fun _ _ h => by cases h
  have hbody : StmtTyped (some τ) [Frame.empty.add "x" τ, Frame.empty.add "id" (.fn [τ] τ)]
      (.block .nowhere [] [.return .nowhere (.name .nowhere "x")]) []
      [Frame.empty.add "x" τ, Frame.empty.add "id" (.fn [τ] τ)] :=
    .block .nil (.cons (.return rfl (.name (.outer rfl (.here rfl)))) .nil)
  have hmain : StmtsTyped none [(Frame.empty.add "id" (.fn [τ] τ)).add "y" τ] identity.main []
      [(Frame.empty.add "id" (.fn [τ] τ)).add "y" τ] :=
    .cons (.assign (.here rfl) (.call (.here rfl) (.cons (.name (.here rfl)) .nil))) .nil
  exact ⟨_, .mk (.cons rfl .nil) (.cons (.body (.cons (.declare rfl (hallows _)) .nil) hbody) .nil)
    (.cons (.declare rfl (hallows _)) .nil) hmain⟩

/-- The identity can be typed, so it is accepted with types that fit; self-application is rejected,
so it cannot be typed. -/
theorem check_principal_identity :
    (∃ s nodes, identity.check = .ok () s ∧ identity.nodes? = some nodes ∧
      ∃ g : Valuation, ⟨[⟨[.base .int], .base .int, []⟩], [.base .int], []⟩ =
        nodes.map (s.types.groundAt g)) ∧
    ∀ t, ¬ selfApplication.WellTyped t := by
  refine ⟨(check_principal _).1 _ (identity_wellTyped (.base .int)), ?_⟩
  have hnone : ¬ selfApplication.nodes?.isSome = true := by decide +kernel
  rcases hc : selfApplication.check with ⟨_, s⟩ | ⟨e, s⟩
  · exact absurd (isSome_nodes?_iff.2 ⟨s, hc⟩) hnone
  · exact (check_principal _).2 e s hc

end Program

end SimpleLang
