import SimpleLang.Proofs.Check.Correspondence
import SimpleLang.Proofs.Check.Globals
import SimpleLang.Proofs.Check.Inference
import SimpleLang.Proofs.Check.Reorder
import SimpleLang.Proofs.Parse.Declared
import SimpleLang.Proofs.Types.Instances

/-!
# The order of a program does not matter

A check works through a program in order, and on the way the order decides which variable is bound
to which.  What it comes to does not depend on it: a program that was read and the same program with
its functions, globals and main statements in any other order are accepted alike, and the types of
the declarations differ in the names of variables only (`Program.check_reordered`).

The check of a program holds exactly its typings (`Program.Concludes`), and these do not depend on
order.  So the types shown in the end have the same ground instances, and types with the same
instances differ in the names of variables only.
-/

namespace SimpleLang

/-- The declarations of the outermost scope with their types, sorted by name. -/
def Session.globalTerms (s : Session) : List (String × Ty) :=
  s.scopes.globals.map fun d => (d.1, s.types.term d.2)

theorem Session.globalTypes_eq (s : Session) :
    s.globalTypes = s.globalTerms.map fun d => (d.1, d.2.text) := by
  rw [globalTerms, List.map_map]
  rfl

namespace Program

variable {p p' : Program} {s s' : Session} {scope scope' : List (String × NodeId)}

/-- The session `s` with the one scope `scope` holds the contexts that typings of `p` end with. -/
structure Concludes (p : Program) (s : Session) (scope : List (String × NodeId)) : Prop where
  /-- The store is valid. -/
  valid : s.types.Valid
  /-- One scope is open. -/
  scopes : s.scopes = ⟨[scope]⟩
  /-- It declares no name twice. -/
  names : (scope.map Prod.fst).Nodup
  /-- It declares names with nodes of the store. -/
  nodes : ∀ d ∈ scope, d.2 < s.types.size
  /-- Typings end with what the store makes of the scope. -/
  contexts : ∀ Γ, (∃ t, ProgramTyped p t Γ) ↔ ∃ M, s.types.Admits M ∧ Γ = [frameOf M scope]

/-- A check that accepts holds the typings. -/
theorem exists_concludes (h : p.check = .ok () s) : ∃ scope, p.Concludes s scope := by
  have hcheck := Checker.program_corresponds Access.standard_faithful.simulates
    Session.wellFormed_initial.related p
  have hrun : Checker.program p .initial = .ok () s := h
  rw [hrun] at hcheck
  obtain ⟨hwf, hframe, -⟩ := hcheck.of_ok
  obtain ⟨scope, hscopes, hnames⟩ := hframe.scopes.exists_single
  have hcontext : ∀ M, s.scopes.context M = [frameOf M scope] := fun M => by
    rw [hscopes]
    rfl
  rcases p.check_cases with ⟨s', nodes, hs', -, hold⟩ | ⟨⟨d, s', hs'⟩, -, -⟩
  · rw [h] at hs'
    cases hs'
    refine ⟨scope, hold.valid, hscopes, hnames, ?_, fun Γ => ⟨?_, ?_⟩⟩
    · exact hwf.scopes scope (by rw [hscopes]; exact List.mem_singleton_self scope)
    · rintro ⟨t, ht⟩
      obtain ⟨M, hM, hΓ⟩ := hold.contexts t Γ ht
      exact ⟨M, hM, by rw [← hΓ, hcontext]⟩
    · rintro ⟨M, hM, rfl⟩
      rw [← hcontext]
      exact ⟨_, hold.sound M hM⟩
  · rw [h] at hs'
    cases hs'

/-- A program is accepted exactly if it can be typed. -/
theorem exists_check_iff : (∃ s, p.check = .ok () s) ↔ ∃ Γ t, ProgramTyped p t Γ := by
  rcases p.check_cases with ⟨s, nodes, hs, -, hold⟩ | ⟨⟨d, s, hs⟩, -, himp⟩
  · have hM := TypeStore.admits_groundAt hold.wellFormed fun _ => .base .int
    exact iff_of_true ⟨s, hs⟩ ⟨_, _, hold.sound _ hM⟩
  · refine iff_of_false (by simp [hs]) ?_
    rintro ⟨Γ, t, ht⟩
    exact himp t ⟨Γ, ht⟩

namespace Concludes

/-- The nodes of the declarations that are shown. -/
abbrev shownNodes (scope : List (String × NodeId)) : List NodeId :=
  (Scopes.sortByName scope).map Prod.snd

theorem shownNodes_lt (hs : p.Concludes s scope) : ∀ i ∈ shownNodes scope, i < s.types.size := by
  intro i hi
  obtain ⟨d, hd, rfl⟩ := List.mem_map.1 hi
  exact hs.nodes d ((Scopes.sortByName_perm scope).mem_iff.1 hd)

theorem globalTerms_eq (hs : p.Concludes s scope) : s.globalTerms =
    ((Scopes.sortByName scope).map Prod.fst).zip ((shownNodes scope).map s.types.term) := by
  rw [List.map_map, List.zip_map', Session.globalTerms, hs.scopes]
  rfl

variable (hs : p.Concludes s scope) (hs' : p'.Concludes s' scope')
  (hp : ∀ Γ, (∃ t, ProgramTyped p t Γ) → ∃ t, ProgramTyped p' t Γ)

include hs hs' hp

/-- Each valuation of the one store gives the scope the types that one of the other gives. -/
theorem exists_frame_eq {M : Valuation} (hM : s.types.Admits M) :
    ∃ M', s'.types.Admits M' ∧ frameOf M scope = frameOf M' scope' := by
  obtain ⟨M', hM', heq⟩ := (hs'.contexts _).1 (hp _ ((hs.contexts _).2 ⟨M, hM, rfl⟩))
  exact ⟨M', hM', (List.cons.inj heq).1⟩

theorem names_eq :
    (Scopes.sortByName scope).map Prod.fst = (Scopes.sortByName scope').map Prod.fst := by
  obtain ⟨M', -, heq⟩ := hs.exists_frame_eq hs' hp
    (TypeStore.admits_groundAt hs.valid.toWellFormed fun _ => .base .int)
  -- a name is declared where the scope gives it a type
  have hmem : ∀ (M : Valuation) (scope : List (String × NodeId)) (x : String),
      x ∈ scope.map Prod.fst ↔ frameOf M scope x ≠ none := by
    intro M scope x
    rw [frameOf, Ne, Option.map_eq_none_iff]
    exact Scopes.mem_names_iff
  refine Scopes.sortByName_names_eq hs.names hs'.names fun x => ?_
  rw [hmem _ scope x, hmem M' scope' x, heq]

/-- Every instance of the types that the one shows is an instance of those that the other shows. -/
theorem exists_instance (g : Nat → GroundTy) : ∃ g' : Nat → GroundTy,
    ((shownNodes scope).map s.types.term).map (Ty.ground g) =
      ((shownNodes scope').map s'.types.term).map (Ty.ground g') := by
  obtain ⟨M, hM, hg⟩ := (hs.valid.exists_admits_iff hs.shownNodes_lt).2 ⟨g, rfl⟩
  obtain ⟨M', hM', heq⟩ := hs.exists_frame_eq hs' hp hM
  have hshown : (shownNodes scope').map M' = (shownNodes scope).map M := by
    rw [Scopes.sortByName_map_eq hs'.names, Scopes.sortByName_map_eq hs.names,
      hs.names_eq hs' hp]
    exact congrArg (List.filterMap · _) heq.symm
  obtain ⟨g', hg'⟩ := (hs'.valid.exists_admits_iff hs'.shownNodes_lt).1 ⟨M', hM', hshown⟩
  exact ⟨g', by rw [hg', hg]⟩

end Concludes

/-- **The order of a program does not matter.**  Whatever the order of the functions, the globals and
the main statements of a program that was read, it is accepted or not, and if it is, the same names
are declared with types that differ in the names of variables only, which are renamed alike in all
of them. -/
theorem check_reordered {tokens : List Token} {file : String}
    (h : Program.ofTokens tokens file = .ok p) (hp : p.Reordered p') :
    ((∃ s', p'.check = .ok () s') ↔ ∃ s, p.check = .ok () s) ∧
    ∀ s s', p.check = .ok () s → p'.check = .ok () s' → ∃ ρ : Equiv.Perm Nat,
      s.globalTypes = s.globalTerms.map (fun d => (d.1, d.2.text)) ∧
      s'.globalTypes = s.globalTerms.map fun d => (d.1, (d.2.rename ρ).text) := by
  have hmain := declared_of_ofTokens h
  have hmain' : ∀ st ∈ p'.main, st.declared = [] := fun st hst =>
    hmain st (hp.main.mem_iff.2 hst)
  have hthere : ∀ Γ, (∃ t, ProgramTyped p t Γ) → ∃ t, ProgramTyped p' t Γ :=
    fun Γ ⟨_, ht⟩ => ht.perm hp hmain
  have hback : ∀ Γ, (∃ t, ProgramTyped p' t Γ) → ∃ t, ProgramTyped p t Γ :=
    fun Γ ⟨_, ht⟩ => ht.perm hp.symm hmain'
  constructor
  · rw [exists_check_iff, exists_check_iff]
    exact exists_congr fun Γ => ⟨hback Γ, hthere Γ⟩
  · intro s s' hcheck hcheck'
    obtain ⟨scope, hs⟩ := exists_concludes hcheck
    obtain ⟨scope', hs'⟩ := exists_concludes hcheck'
    obtain ⟨ρ, hρ⟩ := Ty.exists_rename_of_instances (hs.exists_instance hs' hthere)
      (hs'.exists_instance hs hback)
    refine ⟨ρ, s.globalTypes_eq, ?_⟩
    rw [s'.globalTypes_eq, hs'.globalTerms_eq, hs.globalTerms_eq, hρ, ← hs.names_eq hs' hthere,
      List.zip_map_right, List.map_map]
    rfl

/-- The tokens of `var a; var b; a := b;`. -/
def twoGlobals : List Token :=
  [(.varKw, "var"), (.identifier, "a"), (.semicolon, ";"), (.varKw, "var"), (.identifier, "b"),
    (.semicolon, ";"), (.identifier, "a"), (.assignment, ":="), (.identifier, "b"),
    (.semicolon, ";")].map fun (kind, text) => ⟨kind, text, .nowhere⟩

/-- With the two globals exchanged the variable that stays unbound has another number. -/
theorem check_reordered_twoGlobals : ∃ p s s', Program.ofTokens twoGlobals "" = .ok p ∧
    p.check = .ok () s ∧ check { p with globals := p.globals.reverse } = .ok () s' ∧
      s.globalTypes = [("a", "t1"), ("b", "t1")] ∧ s'.globalTypes = [("a", "t0"), ("b", "t0")] ∧
      ∃ ρ : Equiv.Perm Nat,
        s'.globalTypes = s.globalTerms.map fun d => (d.1, (d.2.rename ρ).text) := by
  have hrun : (match Program.ofTokens twoGlobals "" with
      | .ok p =>
        match p.check, check { p with globals := p.globals.reverse } with
        | .ok _ s, .ok _ s' => decide (s.globalTypes = [("a", "t1"), ("b", "t1")] ∧
          s'.globalTypes = [("a", "t0"), ("b", "t0")])
        | _, _ => false
      | .error _ => false) = true := by decide +kernel
  cases hp : Program.ofTokens twoGlobals "" with
  | error d => simp [hp] at hrun
  | ok p =>
    rw [hp] at hrun
    dsimp only at hrun
    split at hrun
    · rename_i _ _ s _ s' hs hs'
      obtain ⟨ht, ht'⟩ := of_decide_eq_true hrun
      have hre : p.Reordered { p with globals := p.globals.reverse } :=
        ⟨.refl _, (List.reverse_perm _).symm, .refl _⟩
      obtain ⟨ρ, -, hρ⟩ := (check_reordered hp hre).2 s s' hs hs'
      exact ⟨p, s, s', rfl, hs, hs', ht, ht', ρ, hρ⟩
    · cases hrun

end Program

end SimpleLang
