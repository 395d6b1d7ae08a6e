import SimpleLang.Proofs.Check.Order
import SimpleLang.Proofs.Check.Variables
import SimpleLang.Proofs.Text.ByteOrder

/-!
# What the check of an accepted program leaves

When a program has been accepted, the scope that is left declares its functions and its globals and
nothing else, and the types that are shown keep to what the program has written down
(`Program.check_acceptedIn`).

That no name is missing and none is declared twice can be read off any typing of the program
(`ProgramTyped.declares`).  What is written down holds in every typing, so it holds in every ground
instance of the types shown, and two instances are enough to see it of the types themselves
(`Ty.exists_fn_of_ground`, `Ty.eq_base_of_ground`).
-/

namespace SimpleLang

/-! ### Scopes with new names -/

namespace Frame

variable {F F' F'' : Frame} {names names' : List String}

/-- From `F` on new names are declared, one after another, which leads to `F'`. -/
structure Declares (F : Frame) (names : List String) (F' : Frame) : Prop where
  /-- No name is declared twice. -/
  nodup : names.Nodup
  /-- No name was declared before. -/
  new : ∀ x ∈ names, F x = none
  /-- Nothing else is declared. -/
  none_iff : ∀ x, F' x = none ↔ F x = none ∧ x ∉ names
  /-- What was declared before keeps its type. -/
  kept : ∀ x τ, F x = some τ → F' x = some τ

namespace Declares

theorem nil (F : Frame) : F.Declares [] F where
  nodup := List.nodup_nil
  new := by simp
  none_iff := by simp
  kept _ _ h := h

theorem cons {x : String} {τ : GroundTy} (hx : F x = none) (h : (F.add x τ).Declares names F') :
    F.Declares (x :: names) F' where
  nodup := by
    refine List.nodup_cons.2 ⟨fun hmem => ?_, h.nodup⟩
    exact (Frame.add_eq_none_iff.1 (h.new x hmem)).1 rfl
  new := List.forall_mem_cons.2 ⟨hx, fun y hy => (Frame.add_eq_none_iff.1 (h.new y hy)).2⟩
  none_iff y := by
    rw [h.none_iff, Frame.add_eq_none_iff, List.mem_cons, not_or]
    tauto
  kept y σ hy := by
    have hne : y ≠ x := by
      rintro rfl
      rw [hx] at hy
      cases hy
    exact h.kept y σ (by rw [Frame.add, if_neg hne, hy])

theorem append (h : F.Declares names F') (h' : F'.Declares names' F'') :
    F.Declares (names ++ names') F'' where
  nodup := by
    refine h.nodup.append h'.nodup fun x hx hx' => ?_
    exact ((h.none_iff x).1 (h'.new x hx')).2 hx
  new x hx := by
    rcases List.mem_append.1 hx with hx | hx
    · exact h.new x hx
    · exact ((h.none_iff x).1 (h'.new x hx)).1
  none_iff x := by rw [h'.none_iff, h.none_iff, List.mem_append, not_or, and_assoc]
  kept x τ hx := h'.kept x τ (h.kept x τ hx)

end Declares

end Frame

variable {F F' : Frame} {Γ Γ' : Context}

theorem FuncsDeclared.declares {fs : List FuncDef} {ts : List (FuncTypes GroundTy)}
    (h : FuncsDeclared F fs ts F') : F.Declares (fs.map (·.name)) F' := by
  induction h with
  | nil => exact .nil _
  | cons hnone _ ih => exact .cons hnone ih

/-- Declarations change the innermost scope, which has their types in the end. -/
theorem DeclsTyped.declares {ds : List Decl} {τs : List GroundTy}
    (h : DeclsTyped (F :: Γ) ds τs Γ') : ∃ F', Γ' = F' :: Γ ∧ F.Declares (ds.map (·.name)) F' ∧
      ∀ d ∈ ds, ∃ τ, F' d.name = some τ ∧ d.Allows τ := by
  induction ds generalizing F τs with
  | nil =>
    cases h
    exact ⟨F, rfl, .nil F, by simp⟩
  | cons d ds ih =>
    obtain _ | ⟨⟨hnone, hallows⟩, hrest⟩ := h
    obtain ⟨F', rfl, hdeclares, htypes⟩ := ih hrest
    have hd : F' d.name = some _ := hdeclares.kept d.name _ (by rw [Frame.add, if_pos rfl])
    exact ⟨F', rfl, .cons hnone hdeclares, List.forall_mem_cons.2 ⟨⟨_, hd, hallows⟩, htypes⟩⟩

/-- The names that a program declares outermost: those of its functions and of its globals. -/
def Program.names (p : Program) : List String :=
  p.functions.map (·.name) ++ p.globals.map (·.name)

namespace ProgramTyped

variable {p : Program} {t : ProgramTypes GroundTy}

/-- A typing of a program whose main statements declare nothing ends with its functions and globals,
which have the types written down. -/
theorem declares (hmain : ∀ st ∈ p.main, st.declared = []) (h : ProgramTyped p t [F]) :
    Frame.empty.Declares p.names F ∧
    (∀ f ∈ p.functions, ∃ τs ρ, F f.name = some (.fn τs ρ) ∧
      List.Forall₂ Decl.Allows f.params τs) ∧
    ∀ d ∈ p.globals, ∃ τ, F d.name = some τ ∧ d.Allows τ := by
  obtain ⟨hfunctions, hbodies, hglobals, hstmts⟩ := h
  obtain ⟨rfl, -⟩ := (stmtsTyped_iff_forall hmain).1 ⟨_, hstmts⟩
  obtain ⟨F', heq, hdeclares, htypes⟩ := hglobals.declares
  cases heq
  refine ⟨hfunctions.declares.append hdeclares, fun f hf => ?_, htypes⟩
  -- globals are declared after the functions, which keep their types
  have hall := hfunctions.type_eq hbodies
  obtain ⟨i, hi, rfl⟩ := List.getElem_of_mem hf
  obtain ⟨htype, hparams, -⟩ := hall.get hi (hall.length_eq ▸ hi)
  exact ⟨_, _, hdeclares.kept _ _ htype, hparams.allows⟩

end ProgramTyped

/-! ### Types and their instances -/

namespace Ty

variable {t : Ty}

theorem exists_fn_of_ground {τs : List GroundTy} {ρ : GroundTy}
    (h : t.ground (fun _ => .base .int) = .fn τs ρ) : ∃ ts r, t = .fn ts r := by
  cases t with
  | base b => cases h
  | var v => cases h
  | fn ts r => exact ⟨ts, r, rfl⟩

theorem eq_base_of_ground {b : BaseType}
    (h : t.ground (fun _ => .fn [] (.base .int)) = .base b) : t = .base b := by
  cases t with
  | base c =>
    cases h
    rfl
  | var v => cases h
  | fn ts r => cases h

end Ty

/-! ### What is left -/

/-- What the check of a program that is accepted ends in. -/
structure Program.AcceptedIn (p : Program) (s : Session) : Prop where
  /-- Every scope but the outermost has been closed. -/
  depth : s.scopes.depth = 1
  /-- No return type is left over. -/
  returnType : s.returnType = none
  /-- The functions and the globals are listed and nothing else, each of them once. -/
  names : (s.globalTypes.map Prod.fst).Perm p.names
  /-- They are listed in the order of their bytes. -/
  sorted : (s.globalTypes.map Prod.fst).Pairwise fun x y => Text.bytes x < Text.bytes y
  /-- Types are listed as they are written. -/
  texts : s.globalTypes = s.globalTerms.map fun d => (d.1, d.2.text)
  /-- A function is listed with a type for each of its parameters, the one written down if there is
  one. -/
  functions : ∀ f ∈ p.functions, ∃ params result,
    (f.name, Ty.fn params result) ∈ s.globalTerms ∧
      List.Forall₂ (fun d t => ∀ b, d.type = some b → t = .base b) f.params params
  /-- A global is listed with the type written down, if there is one. -/
  globals : ∀ d ∈ p.globals, ∀ b, d.type = some b → (d.name, Ty.base b) ∈ s.globalTerms
  /-- Every function and every declaration without a written type has got a variable. -/
  created : p.functions.length + Decl.untyped p.declarations ≤ s.types.varCount

namespace Program

variable {p : Program} {s : Session} {scope : List (String × NodeId)}

theorem returnType_of_check (h : p.check = .ok () s) : s.returnType = none := by
  have hcheck := Checker.program_corresponds Access.standard_faithful.simulates
    Session.wellFormed_initial.related p
  have hrun : Checker.program p .initial = .ok () s := h
  rw [hrun] at hcheck
  obtain ⟨-, hframe, -⟩ := hcheck.of_ok
  exact hframe.returnType rfl

namespace Concludes

theorem mem_globalTerms (hs : p.Concludes s scope) {x : String} {i : NodeId}
    (hx : scope.lookup x = some i) : (x, s.types.term i) ∈ s.globalTerms := by
  have hmem : (x, i) ∈ Scopes.sortByName scope :=
    (Scopes.sortByName_perm scope).mem_iff.2 ((Scopes.mem_iff_lookup hs.names).2 hx)
  rw [Session.globalTerms, hs.scopes]
  exact List.mem_map.2 ⟨(x, i), hmem, rfl⟩

theorem globalTypes_names (hs : p.Concludes s scope) :
    s.globalTypes.map Prod.fst = (Scopes.sortByName scope).map Prod.fst := by
  rw [Session.globalTypes, hs.scopes, List.map_map]
  rfl

/-- Each instance of the types in the scope is what a typing ends with. -/
theorem exists_typed (hs : p.Concludes s scope) (g : Nat → GroundTy) : ∃ t,
    ProgramTyped p t [fun x => (scope.lookup x).map fun i => (s.types.term i).ground g] := by
  have hM := TypeStore.admits_groundAt hs.valid.toWellFormed fun v => (s.types.shown v).ground g
  refine (hs.contexts _).2 ⟨_, hM, congrArg (fun F => [F]) (funext fun x => ?_)⟩
  rw [frameOf]
  refine Option.map_congr fun i hi => ?_
  exact hs.valid.ground_term g (hs.nodes (x, i) ((Scopes.mem_iff_lookup hs.names).2 hi))

variable (hs : p.Concludes s scope) (hmain : ∀ st ∈ p.main, st.declared = [])

include hs hmain

/-- The scope declares the functions and the globals, and no name twice. -/
theorem names_perm : (scope.map Prod.fst).Perm p.names := by
  obtain ⟨t, ht⟩ := hs.exists_typed fun _ => .base .int
  obtain ⟨hdeclares, -, -⟩ := ht.declares hmain
  refine (List.perm_ext_iff_of_nodup hs.names hdeclares.nodup).2 fun x => ?_
  have hnone := hdeclares.none_iff x
  rw [Option.map_eq_none_iff] at hnone
  rw [Scopes.mem_names_iff, Ne, hnone]
  simp [Frame.empty]

/-- A function has got a function type that has the types written down. -/
theorem exists_function {f : FuncDef} (hf : f ∈ p.functions) : ∃ params result,
    (f.name, Ty.fn params result) ∈ s.globalTerms ∧
      List.Forall₂ (fun d t => ∀ b, d.type = some b → t = .base b) f.params params := by
  obtain ⟨t, ht⟩ := hs.exists_typed fun _ => .base .int
  obtain ⟨-, hfunctions, -⟩ := ht.declares hmain
  obtain ⟨τs, ρ, htype, -⟩ := hfunctions f hf
  obtain ⟨i, hi, hground⟩ := Option.map_eq_some_iff.1 htype
  obtain ⟨params, result, hterm⟩ := Ty.exists_fn_of_ground hground
  refine ⟨params, result, hterm ▸ hs.mem_globalTerms hi, ?_⟩
  -- where all variables stand for functions, only a constant has a constant as its instance
  obtain ⟨t', ht'⟩ := hs.exists_typed fun _ => .fn [] (.base .int)
  obtain ⟨-, hfunctions', -⟩ := ht'.declares hmain
  obtain ⟨τs', ρ', htype', hallows⟩ := hfunctions' f hf
  rw [hi, Option.map_some, hterm, Ty.ground_fn] at htype'
  cases htype'
  exact (List.forall₂_map_right_iff.1 hallows).imp fun d t hd b hb =>
    Ty.eq_base_of_ground (hd b hb)

theorem mem_global {d : Decl} (hd : d ∈ p.globals) {b : BaseType} (hb : d.type = some b) :
    (d.name, Ty.base b) ∈ s.globalTerms := by
  obtain ⟨t, ht⟩ := hs.exists_typed fun _ => .fn [] (.base .int)
  obtain ⟨-, -, hglobals⟩ := ht.declares hmain
  obtain ⟨τ, htype, hallows⟩ := hglobals d hd
  obtain ⟨i, hi, hground⟩ := Option.map_eq_some_iff.1 htype
  rw [hallows b hb] at hground
  exact Ty.eq_base_of_ground hground ▸ hs.mem_globalTerms hi

end Concludes

/-- **What the check of an accepted program leaves.** -/
theorem check_acceptedIn {tokens : List Token} {file : String}
    (hp : Program.ofTokens tokens file = .ok p) (h : p.check = .ok () s) : p.AcceptedIn s := by
  have hmain := declared_of_ofTokens hp
  obtain ⟨scope, hs⟩ := exists_concludes h
  have hperm : (s.globalTypes.map Prod.fst).Perm (scope.map Prod.fst) := by
    rw [hs.globalTypes_names]
    exact (Scopes.sortByName_perm scope).map Prod.fst
  constructor
  case depth => rw [hs.scopes]; rfl
  case returnType => exact returnType_of_check h
  case names => exact hperm.trans (hs.names_perm hmain)
  case sorted =>
    rw [hs.globalTypes_names, List.pairwise_map]
    exact (Scopes.sortByName_strict hs.names).imp fun hlt => Text.bytes_lt_bytes hlt
  case texts => exact s.globalTypes_eq
  case functions => exact fun f hf => hs.exists_function hmain hf
  case globals => exact fun d hd b hb => hs.mem_global hmain hd hb
  case created =>
    have hcreated := Checker.program_creates Session.wellFormed_initial p () s h
    exact (Nat.zero_add _).symm.trans_le hcreated

/-- The tokens of `func g(int a, var b) { var c; return b; } var z; bool y; z := g(1, y);`. -/
def secondOfTwo : List Token :=
  [(.funcKw, "func"), (.identifier, "g"), (.openParen, "("), (.intKw, "int"), (.identifier, "a"),
    (.comma, ","), (.varKw, "var"), (.identifier, "b"), (.closeParen, ")"), (.openCurly, r"{"),
    (.varKw, "var"), (.identifier, "c"), (.semicolon, ";"), (.returnKw, "return"),
    (.identifier, "b"), (.semicolon, ";"), (.closeCurly, r"}"), (.varKw, "var"),
    (.identifier, "z"), (.semicolon, ";"), (.boolKw, "bool"), (.identifier, "y"),
    (.semicolon, ";"), (.identifier, "z"), (.assignment, ":="), (.identifier, "g"),
    (.openParen, "("), (.number, "1"), (.comma, ","), (.identifier, "y"), (.closeParen, ")"),
    (.semicolon, ";")].map fun (kind, text) => ⟨kind, text, .nowhere⟩

/-- The types of `b`, of the result and of `z` are found out, and that of `c` stays open. -/
theorem check_acceptedIn_secondOfTwo : ∃ p s, Program.ofTokens secondOfTwo "" = .ok p ∧
    p.check = .ok () s ∧ p.AcceptedIn s ∧ p.names = ["g", "z", "y"] ∧
      s.globalTypes = [("g", "(int, bool) -> bool"), ("y", "bool"), ("z", "bool")] ∧
      s.types.varCount = 4 := by
  have hrun : (match Program.ofTokens secondOfTwo "" with
      | .ok p =>
        match p.check with
        | .ok _ s => decide (p.names = ["g", "z", "y"] ∧
          s.globalTypes = [("g", "(int, bool) -> bool"), ("y", "bool"), ("z", "bool")] ∧
          s.types.varCount = 4)
        | _ => false
      | .error _ => false) = true := by decide +kernel
  cases hp : Program.ofTokens secondOfTwo "" with
  | error d => simp [hp] at hrun
  | ok p =>
    rw [hp] at hrun
    dsimp only at hrun
    split at hrun
    · rename_i _ s hs
      exact ⟨p, s, rfl, hs, check_acceptedIn hp hs, of_decide_eq_true hrun⟩
    · cases hrun

end Program

end SimpleLang
