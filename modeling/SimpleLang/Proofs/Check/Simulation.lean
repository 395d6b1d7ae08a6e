import SimpleLang.Proofs.Check.Access
import SimpleLang.Proofs.Check.Frame
import SimpleLang.Proofs.Check.Runs

/-!
# Checks over a simulating access

An access that simulates the store's own operations gives the same checks: started in related
sessions, a check over the access and the check itself come to the same outcome, in related
sessions again (`Checker.stmt_corresponds`, `Checker.items_corresponds`).  On the way it is seen
what every part of a check leaves alone and that none breaks a contract, whatever well-formed
session it is started in.

## Main definitions

* `Session.Related R s s'` : the sessions have types related by `R` and are otherwise the same.
* `Checker.Corresponds R F post r r'` : the outcomes `r` and `r'` are the same, no contract is
  broken, the sessions are related, and `F` holds of the first; a result satisfies `post`.
-/

namespace SimpleLang

/-- Types related by `R` in sessions that are otherwise the same. -/
structure Session.Related (R : Inference → Inference → Prop) (s s' : Session) : Prop where
  /-- The first session is well formed. -/
  wellFormed : s.WellFormed
  /-- The types, and how they were found, are related. -/
  types : R s.toInference s'.toInference
  /-- The same names are declared with the same nodes. -/
  scopes : s'.scopes = s.scopes
  /-- The return type is the same node. -/
  returnType : s'.returnType = s.returnType

/-- The very same session. -/
theorem Session.Related.eq {s s' : Session} (h : Related Access.Same s s') : s' = s := by
  obtain ⟨⟨types, log⟩, scopes, ret⟩ := s
  obtain ⟨⟨types', log'⟩, scopes', ret'⟩ := s'
  obtain ⟨-, ⟨htypes, -⟩, hscopes, hret⟩ := h
  cases htypes
  cases hscopes
  cases hret
  rfl

theorem Session.WellFormed.related {s : Session} (h : s.WellFormed) : Related Access.Same s s :=
  ⟨h, ⟨rfl, h.types⟩, rfl, rfl⟩

namespace Checker

open TypeStore

open Session (Related)

variable {α β : Type} {A : Access} {R : Inference → Inference → Prop} {s s' t t' : Session}
  {F G : Session → Prop} {D : String → Prop} {position : Position}

/-- The two outcomes are the same and no contract is broken.  The sessions are related, and the
first of them satisfies `F`; a result satisfies `post`. -/
inductive Corresponds (R : Inference → Inference → Prop) (F : Session → Prop)
    (post : α → Session → Prop) : EStateM.Result (Failure Diagnostic) Session α →
      EStateM.Result (Failure Diagnostic) Session α → Prop
  /-- Both accept. -/
  | accepted {a : α} {t t' : Session} (related : Related R t t') (frame : F t)
      (holds : post a t) : Corresponds R F post (.ok a t) (.ok a t')
  /-- Both reject. -/
  | rejected {d : Diagnostic} {t t' : Session} (related : Related R t t') (frame : F t) :
      Corresponds R F post (.error (.rejected d) t) (.error (.rejected d) t')

namespace Corresponds

variable {post : α → Session → Prop} {post' : β → Session → Prop}

theorem imp {r r' : EStateM.Result (Failure Diagnostic) Session α} {post' : α → Session → Prop}
    (h : Corresponds R F post r r') (hF : ∀ t, F t → G t)
    (hpost : ∀ a t, F t → post a t → post' a t) : Corresponds R G post' r r' := by
  cases h with
  | accepted hR ht hp => exact .accepted hR (hF _ ht) (hpost _ _ ht hp)
  | rejected hR ht => exact .rejected hR (hF _ ht)

/-- One part after another. -/
theorem seq {x x' : Checker α} {f f' : α → Checker β} (hx : Corresponds R F post (x s) (x' s'))
    (hF : ∀ t, F t → G t)
    (hf : ∀ a t t', Related R t t' → F t → post a t → Corresponds R G post' (f a t) (f' a t')) :
    Corresponds R G post' ((x >>= f) s) ((x' >>= f') s') := by
  change Corresponds R G post' (EStateM.bind x f s) (EStateM.bind x' f' s')
  unfold EStateM.bind
  generalize x s = r, x' s' = r' at hx
  cases hx with
  | accepted hR ht hp => exact hf _ _ _ hR ht hp
  | rejected hR ht => exact .rejected hR (hF _ ht)

/-- One part after another, in one frame. -/
theorem bind {x x' : Checker α} {f f' : α → Checker β}
    (hx : Corresponds R (s.Frame D) post (x s) (x' s'))
    (hf : ∀ a t t', Related R t t' → s.Frame D t → post a t →
      Corresponds R (t.Frame D) post' (f a t) (f' a t')) :
    Corresponds R (s.Frame D) post' ((x >>= f) s) ((x' >>= f') s') :=
  hx.seq (fun _ h => h) fun a t t' hR ht hp =>
    (hf a t t' hR ht hp).imp (fun _ h => ht.trans h) fun _ _ _ h => h

theorem pure {a : α} (hR : Related R s s') (ha : post a s) :
    Corresponds R (s.Frame D) post ((Pure.pure a : Checker α) s) ((Pure.pure a : Checker α) s') :=
  .accepted hR (.refl D s) ha

theorem reject {problem : Problem} (hR : Related R s s') :
    Corresponds R (s.Frame D) post (Checker.reject problem position s)
      (Checker.reject problem position s') :=
  .rejected hR (.refl D s)

/-- Work that is followed by something in any case.  What follows puts the session right. -/
theorem andThenAlways {work work' : Checker α} {after : Checker Unit}
    {post' : α → Session → Prop} (hw : Corresponds R F post (work s) (work' s'))
    (hafter : ∀ t t', Related R t t' → F t → ∃ u u', after t = .ok () u ∧ after t' = .ok () u' ∧
      Related R u u' ∧ G u ∧ ∀ a, post a t → post' a u) :
    Corresponds R G post' (Checker.andThenAlways work after s)
      (Checker.andThenAlways work' after s') := by
  generalize hr : work s = r, hr' : work' s' = r' at hw
  cases hw with
  | accepted hR ht hp =>
    obtain ⟨u, u', hu, hu', hRu, hG, hpost⟩ := hafter _ _ hR ht
    rw [andThenAlways_of_ok hr hu, andThenAlways_of_ok hr' hu']
    exact .accepted hRu hG (hpost _ hp)
  | rejected hR ht =>
    obtain ⟨u, u', hu, hu', hRu, hG, -⟩ := hafter _ _ hR ht
    rw [andThenAlways_of_rejected hr hu, andThenAlways_of_rejected hr' hu']
    exact .rejected hRu hG

/-- In the very same states, the outcomes are the very same. -/
theorem eq {r r' : EStateM.Result (Failure Diagnostic) Session α}
    (h : Corresponds Access.Same F post r r') : r' = r := by
  cases h with
  | accepted hR _ _ => rw [hR.eq]
  | rejected hR _ => rw [hR.eq]

/-- What holds of a check over some access holds of the check itself. -/
theorem self {r r' : EStateM.Result (Failure Diagnostic) Session α}
    (h : Corresponds Access.Same F post r r') : Corresponds Access.Same F post r r := by
  have heq := h.eq
  rwa [heq] at h

/-- One part of a check after another, by itself. -/
theorem self_seq {x : Checker α} {f : α → Checker β}
    {r' : EStateM.Result (Failure Diagnostic) Session α}
    (hx : Corresponds Access.Same F post (x s) r') (hF : ∀ t, F t → G t)
    (hf : ∀ a t, t.WellFormed → F t → post a t →
      Corresponds Access.Same G post' (f a t) (f a t)) :
    Corresponds Access.Same G post' ((x >>= f) s) ((x >>= f) s) := by
  refine hx.self.seq hF fun a t t' hR ht hp => ?_
  rw [hR.eq]
  exact hf a t hR.wellFormed ht hp

theorem of_ok {r' : EStateM.Result (Failure Diagnostic) Session α} {a : α}
    (h : Corresponds R F post (.ok a t) r') : t.WellFormed ∧ F t ∧ post a t := by
  cases h with
  | accepted hR ht hp => exact ⟨hR.wellFormed, ht, hp⟩

theorem of_error {r' : EStateM.Result (Failure Diagnostic) Session α} {e : Failure Diagnostic}
    (h : Corresponds R F post (.error e t) r') : ∃ d, e = .rejected d ∧ t.WellFormed ∧ F t := by
  cases h with
  | rejected hR ht => exact ⟨_, rfl, hR.wellFormed, ht⟩

end Corresponds

/-! ### Steps -/

section Steps

variable (h : A.Simulates R) (hR : Related R s s')

include h

theorem note_corresponds (e : Event) (hR : Related R s s') :
    Corresponds R (s.Frame D) (fun _ _ => True) (note e s) (note e s') :=
  .accepted ⟨hR.wellFormed.of_types (i := { s.toInference with log := s.log.push e })
    hR.wellFormed.types (Nat.le_refl _), h.note e hR.types, hR.scopes, hR.returnType⟩
    ⟨.refl _, .refl, rfl⟩ trivial

include hR

theorem fresh_corresponds :
    Corresponds R (s.Frame D) (fun i t => i < t.types.size) (onTypes (·.fresh) s)
      (onTypes (·.fresh) s') := by
  have hsize : s.types.fresh.2.size = s.types.size + 1 := size_push _ _ _
  have hrun : onTypes (·.fresh) s' = .ok s.types.size { s' with types := s'.types.fresh.2 } := by
    rw [← h.size_eq hR.types]
    rfl
  rw [hrun]
  refine .accepted (t := { s with types := s.types.fresh.2 }) ⟨?_, h.fresh hR.types, hR.scopes,
    hR.returnType⟩ ⟨extends_push _ _ _, .refl, rfl⟩ (by dsimp only; omega)
  exact hR.wellFormed.of_types (i := { s.toInference with types := s.types.fresh.2 })
    (wellFormed_fresh hR.wellFormed.types) (by dsimp only; omega)

theorem declared_corresponds (type : Option BaseType) :
    Corresponds R (s.Frame D) (fun i t => i < t.types.size) (onTypes (·.declared type) s)
      (onTypes (·.declared type) s') := by
  cases type with
  | none => exact fresh_corresponds h hR
  | some b => exact .accepted hR (.refl D s) (hR.wellFormed.constants b)

theorem functionType_corresponds {result : NodeId} {params : List NodeId}
    (hlt : ∀ j ∈ result :: params, j < s.types.size) :
    Corresponds R (s.Frame D) (fun i t => t.types.node? i = some (.function result params))
      (onTypes (·.function result params) s) (onTypes (·.function result params) s') := by
  have hsize : (s.types.function result params).2.size = s.types.size + 1 := size_push _ _ _
  have hrun : onTypes (·.function result params) s' =
      .ok s.types.size { s' with types := (s'.types.function result params).2 } := by
    rw [← h.size_eq hR.types]
    rfl
  rw [hrun]
  refine .accepted (t := { s with types := (s.types.function result params).2 })
    ⟨?_, h.function hR.types hlt, hR.scopes, hR.returnType⟩
    ⟨extends_push _ _ _, .refl, rfl⟩ (node?_push_self _ _ _)
  exact hR.wellFormed.of_types
    (i := { s.toInference with types := (s.types.function result params).2 })
    (wellFormed_function hR.wellFormed.types hlt) (by dsimp only; omega)

theorem unify_corresponds {a b : NodeId} (ha : a < s.types.size) (hb : b < s.types.size) :
    Corresponds R (s.Frame D) (fun _ _ => True) (unify a b position s)
      (A.equate a b position s') := by
  have hsame := h.unify hR.types ha hb
  have hsolve := Unifier.unify_solves (i := s.toInference) hR.wellFormed.types ha hb
  unfold unify Access.equate infer
  generalize Unifier.unify a b s.toInference = r, A.unify a b s'.toInference = r' at hsame hsolve
  have hrel : ∀ {i i'}, Access.Simulates.Sized R s.types.size i i' →
      Related R { s with toInference := i } { s' with toInference := i' } := fun hi =>
    ⟨hR.wellFormed.of_types (h.wellFormed hi.1) (Nat.le_of_eq hi.2.symm), hi.1, hR.scopes,
      hR.returnType⟩
  cases hsame with
  | ok hi => exact .accepted (hrel hi) ⟨hsolve.refines_ok.toExtends, .refl, rfl⟩ trivial
  | @error e i i' hi =>
    cases e with
    | rejected p => exact .rejected (hrel hi) ⟨hsolve.refines_error.toExtends, .refl, rfl⟩
    | breach b => exact hsolve.elim

theorem representative_corresponds {i : NodeId} (hi : i < s.types.size) :
    Corresponds R (s.Frame D) (fun p t => t.types.node? p.1 = some p.2 ∧ t.types.Root p.1)
      (representative i position s) (A.representative i position s') := by
  have hwf := hR.wellFormed.types
  have hfind := find_sameTypes hwf i
  obtain ⟨n, hn, hroot⟩ := exists_representative hwf hi
  obtain ⟨j', hj', hRj⟩ := h.find hR.types hi
  have hn' : j'.types.node? (s.types.resolve i) = some n := (h.root_eq hRj hroot).trans hn
  have hrun : A.representative i position s' =
      .ok (s.types.resolve i, n) { s' with toInference := j' } := by
    refine infer_of_ok ?_
    rw [bind_of_ok hj', bind_of_ok (Unifier.node_eq hn')]
    rfl
  rw [representative_of_node hn, hrun]
  refine .accepted ⟨?_, hRj, hR.scopes, hR.returnType⟩ ⟨hfind.toExtends, .refl, rfl⟩ ⟨hn, hroot⟩
  exact hR.wellFormed.of_types (i := ⟨(s.types.find i).2, s.log⟩) hfind.wellFormed
    (Nat.le_of_eq hfind.size_eq.symm)

theorem display_corresponds {i : NodeId} (hi : i < s.types.size) :
    Corresponds R (s.Frame D) (fun _ _ => True) (display i s) (A.shown i position s') := by
  have hrun : A.shown i position s' = .ok (s.types.display i) s' :=
    infer_of_ok (h.display hR.types hi)
  rw [hrun]
  exact .accepted hR (.refl D s) trivial

omit h

theorem lookup_corresponds (x : String) :
    Corresponds R (s.Frame D) (fun i t => i < t.types.size) (lookup x position s)
      (lookup x position s') := by
  cases hl : s.scopes.lookup? x with
  | none =>
    rw [lookup_of_none hl, lookup_of_none (by rw [hR.scopes, hl])]
    exact .rejected hR (.refl D s)
  | some i =>
    rw [lookup_of_some hl, lookup_of_some (by rw [hR.scopes, hl])]
    exact .accepted hR (.refl D s) (hR.wellFormed.lookup_lt hl)

theorem declare_corresponds {x : String} {i : NodeId} (hx : D x) (hi : i < s.types.size) :
    Corresponds R (s.Frame D)
      (fun _ t => t.scopes.here? x = some i)
      (declare x i position s) (declare x i position s') := by
  obtain ⟨scope, outer, hstack⟩ := List.exists_cons_of_ne_nil hR.wellFormed.opened
  have hstack' : s'.scopes.stack = scope :: outer := by rw [hR.scopes, hstack]
  cases hl : scope.lookup x with
  | some j =>
    rw [declare_of_duplicate hstack hl, declare_of_duplicate hstack' hl]
    exact .rejected hR (.refl D s)
  | none =>
    rw [declare_of_new hstack hl, declare_of_new hstack' hl]
    have hext : s.scopes.Extends D ⟨((x, i) :: scope) :: outer⟩ :=
      .declare (hstack ▸ Scopes.Extends.refl) hx hl
    refine .accepted ⟨hR.wellFormed.declare hstack hi x, hR.types, rfl, hR.returnType⟩
      ⟨.refl _, hext, rfl⟩ ?_
    simp [Scopes.here?]

end Steps

/-- A scope of its own keeps what is declared in it from what is around. -/
theorem withScope_corresponds (D' : String → Prop) {work work' : Checker Unit}
    (h : A.Simulates R) (hR : Related R s s')
    (hw : ∀ t t', Related R t t' → t.types = s.types →
      Corresponds R (t.Frame D') (fun _ _ => True) (work t) (work' t')) :
    Corresponds R (s.Frame D) (fun _ _ => True) (withScope work s) (withScope work' s') := by
  rw [withScope, bind_of_ok (enterScope_eq s), withScope, bind_of_ok (enterScope_eq s'), hR.scopes]
  have hR₁ : Related R { s with
      scopes := s.scopes.enter, log := s.log.push (.scopeEntered s.scopes.enter.depth) }
      { s' with
        scopes := s.scopes.enter, log := s'.log.push (.scopeEntered s.scopes.enter.depth) } :=
    ⟨hR.wellFormed.enter.of_types (i := { s.toInference with log := s.log.push _ })
      hR.wellFormed.types (Nat.le_refl _), h.note _ hR.types, rfl, hR.returnType⟩
  refine .andThenAlways (hw _ _ hR₁ rfl) fun t t' hRt hF => ?_
  -- whatever the work has declared is in the scope that is closed
  have hexit : t.scopes.exit? = some s.scopes := hRt.wellFormed.exit hF.scopes.tail_eq
  refine ⟨_, _, exitScope_of_exit hexit, exitScope_of_exit (by rw [hRt.scopes, hexit]), ?_,
    ⟨hF.types, .refl, hF.returnType⟩, fun _ h => h⟩
  exact ⟨(hRt.wellFormed.setScopes hR.wellFormed hF.types.size_le).of_types
    (i := { t.toInference with log := t.log.push _ }) hRt.wellFormed.types (Nat.le_refl _),
    h.note _ hRt.types, rfl, hRt.returnType⟩

end Checker

end SimpleLang
