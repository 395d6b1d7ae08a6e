import SimpleLang.Proofs.Parse.Phrase

/-!
# Phrases elsewhere

The grammar asks for the kinds and the texts of tokens, and hands their places on to the trees.  So
tokens that are moved elsewhere spell the same tree, moved in the same way, and each `else` still
belongs to the same conditional (`Phrase.Sequence.relocate` for the items of a program).
-/

namespace SimpleLang

/-! ### Conditionals elsewhere -/

namespace Stmt

variable {ρ : Relocation}

@[simp] theorem relocate_stop (s : Stmt) : (s.relocate ρ).span.stop = ρ.stop s.span.stop := by
  cases s <;> rfl

@[simp] theorem endsOpen_relocate : ∀ s : Stmt, (s.relocate ρ).endsOpen = s.endsOpen
  | .decl .. | .block .. | .assign .. | .return .. | .ifThen .. => rfl
  | .ifElse _ _ _ e => endsOpen_relocate e
  | .while _ _ b => endsOpen_relocate b

end Stmt

namespace Phrase

variable {α β : Type} {P : List Token → α → Prop} {Q : List Token → β → Prop} {ρ : Relocation}
  {f : α → β} {n : Nat} {ts us : List Token} {t : Token} {a : α} {as bs : List α} {e : Expr}
  {d : Decl} {s : Stmt} {func : FuncDef} {i : Item} {items : List Item}

/-! ### Lists of phrases -/

theorem Sequence.append (h : Sequence P ts as) (h' : Sequence P us bs) :
    Sequence P (ts ++ us) (as ++ bs) := by
  induction h with
  | nil => exact h'
  | cons ha _ ih =>
    rw [List.append_assoc]
    exact .cons ha ih

theorem Sequence.move (h : Sequence P ts as)
    (hPQ : ∀ ts a, P ts a → Q (ts.map (Token.relocate ρ)) (f a)) :
    Sequence Q (ts.map (Token.relocate ρ)) (as.map f) := by
  induction h with
  | nil => exact .nil
  | cons ha _ ih =>
    rw [List.map_append]
    exact .cons (hPQ _ _ ha) ih

theorem AfterComma.move (h : AfterComma P ts a)
    (hPQ : ∀ ts a, P ts a → Q (ts.map (Token.relocate ρ)) (f a)) :
    AfterComma Q (ts.map (Token.relocate ρ)) (f a) := by
  cases h with
  | mk hcomma ha => exact .mk hcomma (hPQ _ _ ha)

theorem Separated.move (h : Separated P ts as)
    (hPQ : ∀ ts a, P ts a → Q (ts.map (Token.relocate ρ)) (f a)) :
    Separated Q (ts.map (Token.relocate ρ)) (as.map f) := by
  cases h with
  | none => exact .none
  | some ha hs =>
    rw [List.map_append]
    exact .some (hPQ _ _ ha) (hs.move fun _ _ h => h.move hPQ)

/-! ### Expressions -/

theorem Callee.relocate (h : Callee ts t) :
    Callee (ts.map (Token.relocate ρ)) (t.relocate ρ) := by
  induction h with
  | name ht => exact .name ht
  | @group o c _ _ ho _ hc ih =>
    simpa using Callee.group (o := o.relocate ρ) (c := c.relocate ρ) ho ih hc

/-- Tokens elsewhere spell the expression elsewhere. -/
theorem Expression.relocate (h : Expression n ts e) :
    Expression n (ts.map (Token.relocate ρ)) (e.relocate ρ) := by
  induction h using Expression.induct with
  | tighter _ ih => exact .tighter ih
  | @binary _ _ _ t _ _ _ hop _ ht _ ihl ihr =>
    simpa [Expr.relocate, Span.relocate] using
      Expression.binary (t := t.relocate ρ) hop ihl ht ihr
  | number ht hv => exact .number ht hv
  | true ht => exact .true ht
  | false ht => exact .false ht
  | name ht => exact .name ht
  | @group o c _ _ ho _ hc ih =>
    simpa using Expression.group (o := o.relocate ρ) (c := c.relocate ρ) ho ih hc
  | @call _ _ _ o c _ hf ho hes hc =>
    have hargs := hes.move (ρ := ρ) (f := Expr.relocate ρ) fun _ _ ⟨_, ih⟩ => ih
    simpa [Expr.relocate, Expr.relocateAll_eq_map, Span.relocate, Token.relocate] using
      Expression.call (o := o.relocate ρ) (c := c.relocate ρ) (hf.relocate (ρ := ρ)) ho hargs hc

/-! ### Declarations and statements -/

theorem TypedName.relocate (h : TypedName ts d) :
    TypedName (ts.map (Token.relocate ρ)) (d.relocate ρ) := by
  cases h with
  | @mk k x _ hk hx => exact .mk (k := k.relocate ρ) (x := x.relocate ρ) hk hx

theorem Declaration.relocate (h : Declaration ts d) :
    Declaration (ts.map (Token.relocate ρ)) (d.relocate ρ) := by
  cases h with
  | mk hd hsemicolon =>
    rw [List.map_append]
    exact .mk hd.relocate hsemicolon

/-- Tokens elsewhere spell the statement elsewhere. -/
theorem Statement.relocate (h : Statement ts s) :
    Statement (ts.map (Token.relocate ρ)) (s.relocate ρ) := by
  induction h using Statement.induct with
  | @block o c _ _ _ _ ho hds hss hc =>
    have hds := hds.move (ρ := ρ) (f := Decl.relocate ρ) fun _ _ h => h.relocate
    have hss := hss.move (ρ := ρ) (f := Stmt.relocate ρ) fun _ _ ⟨_, ih⟩ => ih
    simpa [Stmt.relocate, Stmt.relocateAll_eq_map, Span.relocate, Token.relocate] using
      Statement.block (o := o.relocate ρ) (c := c.relocate ρ) ho hds hss hc
  | @assign x a semicolon _ _ hx ha he hsemicolon =>
    have hsemicolon : (semicolon.relocate ρ).kind = .semicolon := hsemicolon
    simpa [Stmt.relocate, Span.relocate, Token.relocate] using
      Statement.assign (x := x.relocate ρ) (a := a.relocate ρ) hx ha he.relocate hsemicolon
  | @ifThen k _ _ _ _ hk he _ ih =>
    simpa [Stmt.relocate, Span.relocate, Token.relocate] using
      Statement.ifThen (k := k.relocate ρ) hk he.relocate ih
  | @ifElse k l _ _ _ _ _ _ hk he _ hl _ ih ih' =>
    simpa [Stmt.relocate, Span.relocate, Token.relocate] using
      Statement.ifElse (k := k.relocate ρ) (l := l.relocate ρ) hk he.relocate ih hl ih'
  | @«while» k _ _ _ _ hk he _ ih =>
    simpa [Stmt.relocate, Span.relocate, Token.relocate] using
      Statement.while (k := k.relocate ρ) hk he.relocate ih
  | @«return» k semicolon _ _ hk he hsemicolon =>
    have hsemicolon : (semicolon.relocate ρ).kind = .semicolon := hsemicolon
    simpa [Stmt.relocate, Span.relocate, Token.relocate] using
      Statement.return (k := k.relocate ρ) hk he.relocate hsemicolon

/-- A conditional takes the same `else` elsewhere. -/
theorem Statement.nearestElse_relocate (h : Statement ts s) :
    (s.relocate ρ).NearestElse ↔ s.NearestElse := by
  induction h using Statement.induct with
  | block _ _ hss _ =>
    have hall := hss.forall_mem fun _ _ ⟨_, ih⟩ => ih
    simp only [Stmt.relocate, Stmt.relocateAll_eq_map, Stmt.nearestElse_block,
      List.forall_mem_map]
    exact forall₂_congr hall
  | ifThen _ _ _ ih => simpa [Stmt.relocate] using ih
  | ifElse _ _ _ _ _ ih ih' => simp [Stmt.relocate, ih, ih']
  | «while» _ _ _ ih => simpa [Stmt.relocate] using ih
  | _ => simp [Stmt.relocate]

/-! ### Items -/

theorem Function.relocate (h : Function ts func) :
    Function (ts.map (Token.relocate ρ)) (func.relocate ρ) := by
  cases h with
  | @mk k x o c _ _ _ _ hk hx ho hds hc hs =>
    have hds := hds.move (ρ := ρ) (f := Decl.relocate ρ) fun _ _ h => h.relocate
    simpa [FuncDef.relocate, Span.relocate, Token.relocate] using
      Function.mk (k := k.relocate ρ) (x := x.relocate ρ) (o := o.relocate ρ)
        (c := c.relocate ρ) hk hx ho hds hc hs.relocate

theorem NearestTopLevel.relocate (h : NearestTopLevel ts i) :
    NearestTopLevel (ts.map (Token.relocate ρ)) (i.relocate ρ) := by
  obtain ⟨h, hnear⟩ := h
  cases h with
  | function hf =>
    refine ⟨.function hf.relocate, ?_⟩
    obtain ⟨-, -, -, -, -, hs⟩ := hf
    exact hs.nearestElse_relocate.2 hnear
  | global hd => exact ⟨.global hd.relocate, trivial⟩
  | main hs => exact ⟨.main hs.relocate, hs.nearestElse_relocate.2 hnear⟩

/-- **Tokens elsewhere spell the items elsewhere.** -/
theorem Sequence.relocate (h : Sequence NearestTopLevel ts items) :
    Sequence NearestTopLevel (ts.map (Token.relocate ρ)) (items.map (Item.relocate ρ)) :=
  h.move fun _ _ h => h.relocate

end Phrase

end SimpleLang
