import SimpleLang.Proofs.Token.Stretch

/-!
# Brackets at the ends of an expression

Brackets leave no trace in a tree, and none in its spans.  So the tokens at the span of an
expression may lack brackets: those around its first operand are opened before the span begins, and
those around its last operand are closed after it ends.

`Token.brackets` counts the brackets of some tokens that have no partner among them.  The tokens
that spell an expression have no such brackets (`Phrase.Expression.balanced`).  The tokens at its
span spell it once the partners are put in front of them and behind them
(`Phrase.Expression.exists_core`); which brackets these are does not matter, since the tree does not
show them.
-/

namespace SimpleLang

/-- The numbers of brackets without a partner. -/
structure Brackets where
  /-- The closing brackets that nothing before them opens. -/
  unopened : Nat
  /-- The opening brackets that nothing after them closes. -/
  unclosed : Nat
  deriving DecidableEq, Repr

namespace Brackets

/-- Each bracket has a partner. -/
def balanced : Brackets := ⟨0, 0⟩

/-- The brackets of one text and of another after it: those that the first leaves open are partners
of those that the second closes. -/
def append (b b' : Brackets) : Brackets :=
  ⟨b.unopened + (b'.unopened - b.unclosed), b'.unclosed + (b.unclosed - b'.unopened)⟩

theorem append_assoc (b b' b'' : Brackets) :
    (b.append b').append b'' = b.append (b'.append b'') := by
  simp only [append, mk.injEq]
  omega

@[simp] theorem balanced_append (b : Brackets) : balanced.append b = b := by
  simp [append, balanced]

@[simp] theorem append_balanced (b : Brackets) : b.append balanced = b := by
  simp [append, balanced]

end Brackets

/-- The bracket that a kind of token is. -/
def TokenKind.brackets : TokenKind → Brackets
  | .openParen => ⟨0, 1⟩
  | .closeParen => ⟨1, 0⟩
  | _ => .balanced

namespace Token

variable {t : Token} {ts os cs : List Token}

/-- The brackets of some tokens that have no partner among them. -/
def brackets (ts : List Token) : Brackets :=
  ts.foldr (fun t b => t.kind.brackets.append b) .balanced

@[simp] theorem brackets_nil : brackets [] = .balanced := rfl

@[simp] theorem brackets_cons (t : Token) (ts : List Token) :
    brackets (t :: ts) = t.kind.brackets.append (brackets ts) := rfl

@[simp] theorem brackets_append (ts us : List Token) :
    brackets (ts ++ us) = (brackets ts).append (brackets us) := by
  induction ts with
  | nil => simp
  | cons t ts ih => rw [List.cons_append, brackets_cons, ih, brackets_cons, Brackets.append_assoc]

@[simp] theorem brackets_relocate (ρ : Relocation) (ts : List Token) :
    brackets (ts.map (relocate ρ)) = brackets ts := by
  induction ts with
  | nil => rfl
  | cons t ts ih => rw [List.map_cons, brackets_cons, ih, relocate_kind, brackets_cons]

theorem brackets_of_opening (h : ∀ o ∈ os, o.kind = .openParen) :
    brackets os = ⟨0, os.length⟩ := by
  induction os with
  | nil => rfl
  | cons o os ih =>
    obtain ⟨ho, hos⟩ := List.forall_mem_cons.1 h
    simp [ho, ih hos, TokenKind.brackets, Brackets.append]

theorem brackets_of_closing (h : ∀ c ∈ cs, c.kind = .closeParen) :
    brackets cs = ⟨cs.length, 0⟩ := by
  induction cs with
  | nil => rfl
  | cons c cs ih =>
    obtain ⟨hc, hcs⟩ := List.forall_mem_cons.1 h
    simp [hc, ih hcs, TokenKind.brackets, Brackets.append, Nat.add_comm]

/-- Opening brackets for the front of a text and closing brackets for its end. -/
structure Enclose (i j : Nat) (os cs : List Token) : Prop where
  /-- Those in front are opening brackets. -/
  opening : ∀ o ∈ os, o.kind = .openParen
  /-- Those behind are closing brackets. -/
  closing : ∀ c ∈ cs, c.kind = .closeParen
  /-- There are `i` in front. -/
  opened : os.length = i
  /-- There are `j` behind. -/
  closed : cs.length = j

namespace Enclose

variable {i j : Nat}

theorem nil : Enclose 0 0 [] [] := ⟨by simp, by simp, rfl, rfl⟩

theorem eq_nil_left (h : Enclose 0 j os cs) : os = [] := List.length_eq_zero_iff.1 h.opened

theorem eq_nil_right (h : Enclose i 0 os cs) : cs = [] := List.length_eq_zero_iff.1 h.closed

theorem wrap {o c : Token} (h : Enclose i j os cs) (ho : o.kind = .openParen)
    (hc : c.kind = .closeParen) : Enclose (i + 1) (j + 1) (o :: os) (cs ++ [c]) where
  opening := List.forall_mem_cons.2 ⟨ho, h.opening⟩
  closing := List.forall_mem_append.2 ⟨h.closing, List.forall_mem_singleton.2 hc⟩
  opened := by rw [List.length_cons, h.opened]
  closed := by rw [List.length_append, List.length_singleton, h.closed]

/-- The outermost brackets. -/
theorem exists_wrap (h : Enclose (i + 1) (j + 1) os cs) : ∃ o os' cs' c, os = o :: os' ∧
    cs = cs' ++ [c] ∧ o.kind = .openParen ∧ c.kind = .closeParen ∧ Enclose i j os' cs' := by
  obtain ⟨hopening, hclosing, hopened, hclosed⟩ := h
  obtain ⟨o, os', rfl⟩ := List.exists_cons_of_length_eq_add_one hopened
  rcases List.eq_nil_or_concat cs with rfl | ⟨cs', c, hcs⟩
  · simp at hclosed
  · rw [List.concat_eq_append] at hcs
    subst hcs
    obtain ⟨ho, hos⟩ := List.forall_mem_cons.1 hopening
    obtain ⟨hcs, hc⟩ := List.forall_mem_append.1 hclosing
    exact ⟨o, os', cs', c, rfl, rfl, ho, hc c List.mem_cons_self,
      hos, hcs, by simpa using hopened, by simpa using hclosed⟩

end Enclose

end Token

namespace Phrase

open Token (brackets Enclose Spanned)

variable {α : Type} {P : List Token → α → Prop} {n : Nat} {ts us : List Token} {t : Token}
  {as : List α} {e : Expr}

/-! ### Expressions have no brackets without a partner -/

theorem Callee.balanced (h : Callee ts t) : brackets ts = .balanced := by
  induction h with
  | name ht => simp [ht, TokenKind.brackets]
  | group ho _ hc ih =>
    simp [ho, hc, ih, TokenKind.brackets, Brackets.append, Brackets.balanced]

theorem Separated.balanced (h : Separated P ts as)
    (hP : ∀ ts a, P ts a → brackets ts = .balanced) : brackets ts = .balanced := by
  have hsequence : ∀ {us bs}, Sequence (AfterComma P) us bs → brackets us = .balanced := by
    intro us bs h
    induction h with
    | nil => rfl
    | cons hb _ ih =>
      obtain ⟨hcomma, hb⟩ := hb
      simp [hcomma, hP _ _ hb, ih, TokenKind.brackets]
  cases h with
  | none => rfl
  | some ha has => simp [hP _ _ ha, hsequence has]

theorem brackets_operator (op : BinaryOp) : op.token.brackets = .balanced := by
  cases op <;> rfl

theorem Expression.balanced (h : Expression n ts e) : brackets ts = .balanced := by
  induction h using Expression.induct with
  | tighter _ ih => exact ih
  | binary _ _ ht _ ihl ihr => simp [ht, ihl, ihr, brackets_operator]
  | number ht _ => simp [ht, TokenKind.brackets]
  | true ht => simp [ht, TokenKind.brackets]
  | false ht => simp [ht, TokenKind.brackets]
  | name ht => simp [ht, TokenKind.brackets]
  | group ho _ hc ih => simp [ho, hc, ih, TokenKind.brackets, Brackets.append, Brackets.balanced]
  | call hf ho hes hc =>
    have hargs := hes.balanced fun _ _ ⟨_, ih⟩ => ih
    simp [ho, hc, hf.balanced, hargs, TokenKind.brackets, Brackets.append, Brackets.balanced]

/-! ### The tokens at the span of an expression -/

/-- The tokens `ts`, which spell an expression of level `n`, are the tokens `us` at its span with
brackets around them: those that they lack, and `around` more on either side. -/
structure Core (n : Nat) (ts us : List Token) (e : Expr) (around : Nat) : Prop where
  /-- There are brackets in front and behind. -/
  enclosed : ∃ os cs, ts = os ++ (us ++ cs) ∧
    Enclose ((brackets us).unopened + around) ((brackets us).unclosed + around) os cs
  /-- The tokens between them take up the span. -/
  spanned : Spanned e.span us
  /-- Any other brackets in their place will do. -/
  spells : ∀ os cs, Enclose ((brackets us).unopened + around) ((brackets us).unclosed + around)
    os cs → Expression n (os ++ (us ++ cs)) e
  /-- The brackets that are not lacking can be left out. -/
  bare : ∀ os cs, Enclose (brackets us).unopened (brackets us).unclosed os cs →
    Expression 0 (os ++ (us ++ cs)) e

theorem Core.of_spells {os cs : List Token} (hts : ts = os ++ (us ++ cs))
    (hos : Enclose (brackets us).unopened (brackets us).unclosed os cs)
    (hspan : Spanned e.span us)
    (h : ∀ os cs, Enclose (brackets us).unopened (brackets us).unclosed os cs →
      Expression n (os ++ (us ++ cs)) e) : Core n ts us e 0 where
  enclosed := ⟨os, cs, hts, hos⟩
  spanned := hspan
  spells := h
  bare os cs hos := (h os cs hos).loosen (Nat.zero_le n)

/-- A token that is an expression lacks no brackets. -/
theorem Core.single (h : Expression n [t] e) (hspan : e.span = t.span) : Core n [t] [t] e 0 := by
  have hspanned : Spanned e.span [t] := ⟨⟨t, [], rfl, by rw [hspan]⟩, ⟨[], t, rfl, by rw [hspan]⟩⟩
  refine .of_spells rfl (by rw [h.balanced]; exact .nil) hspanned fun os cs hos => ?_
  rw [h.balanced] at hos
  rw [hos.eq_nil_left, hos.eq_nil_right]
  exact h

/-- A called name in its brackets. -/
theorem Callee.exists_core (h : Callee ts t) : t.kind = .identifier ∧ ∃ os cs k,
    ts = os ++ t :: cs ∧ Enclose k k os cs ∧
      ∀ os' cs', Enclose k k os' cs' → Callee (os' ++ t :: cs') t := by
  induction h with
  | name ht =>
    refine ⟨ht, [], [], 0, rfl, .nil, fun os cs hos => ?_⟩
    rw [hos.eq_nil_left, hos.eq_nil_right]
    exact .name ht
  | @group o c t ts ho _ hc ih =>
    obtain ⟨ht, os, cs, k, rfl, hos, hcallee⟩ := ih
    refine ⟨ht, o :: os, cs ++ [c], k + 1, by simp, hos.wrap ho hc, fun os' cs' hos' => ?_⟩
    obtain ⟨o', os', cs', c', rfl, rfl, ho', hc', hinner⟩ := hos'.exists_wrap
    simpa using Callee.group ho' (hcallee os' cs' hinner) hc'

/-- An expression is spelled by the tokens at its span between opening and closing brackets. -/
theorem Expression.exists_core (h : Expression n ts e) : ∃ us around, Core n ts us e around := by
  induction h using Expression.induct with
  | number ht hv => exact ⟨_, 0, .single (.number ht hv) rfl⟩
  | true ht => exact ⟨_, 0, .single (.true ht) rfl⟩
  | false ht => exact ⟨_, 0, .single (.false ht) rfl⟩
  | name ht => exact ⟨_, 0, .single (.name ht) rfl⟩
  | tighter _ ih =>
    obtain ⟨us, around, hcore⟩ := ih
    exact ⟨us, around, hcore.enclosed, hcore.spanned,
      fun os cs h => .tighter (hcore.spells os cs h), hcore.bare⟩
  | @group o c _ _ ho _ hc ih =>
    obtain ⟨us, around, hcore⟩ := ih
    obtain ⟨os, cs, rfl, hos⟩ := hcore.enclosed
    refine ⟨us, around + 1, ⟨o :: os, cs ++ [c], by simp, hos.wrap ho hc⟩, hcore.spanned,
      fun os' cs' hos' => ?_, hcore.bare⟩
    obtain ⟨o', os', cs', c', rfl, rfl, ho', hc', hinner⟩ := hos'.exists_wrap
    simpa using Expression.group ho' (hcore.spells os' cs' hinner) hc'
  | @binary n _ _ t op left right hop _ ht _ ihl ihr =>
    obtain ⟨us, k, hcore⟩ := ihl
    obtain ⟨us', k', hcore'⟩ := ihr
    obtain ⟨os, cs, rfl, hleft⟩ := hcore.enclosed
    obtain ⟨os', cs', rfl, hright⟩ := hcore'.enclosed
    -- the left operand lacks the brackets in front of it, the right one those behind it
    have hbrackets : brackets (us ++ (cs ++ t :: (os' ++ us'))) =
        ⟨(brackets us).unopened + k, (brackets us').unclosed + k'⟩ := by
      simp only [Token.brackets_append, Token.brackets_cons, ht, brackets_operator,
        Brackets.balanced_append, Token.brackets_of_closing hleft.closing, hleft.closed,
        Token.brackets_of_opening hright.opening, hright.opened]
      simp only [Brackets.append, Brackets.mk.injEq]
      omega
    obtain ⟨x, xs, hfirst, hstart⟩ := hcore.spanned.first
    obtain ⟨ys, y, hlast, hstop⟩ := hcore'.spanned.last
    have hspan : Spanned ⟨left.span.start, right.span.stop⟩ (us ++ (cs ++ t :: (os' ++ us'))) :=
      ⟨⟨x, xs ++ (cs ++ t :: (os' ++ us')), by simp [hfirst], hstart⟩,
        ⟨us ++ (cs ++ t :: (os' ++ ys)), y, by simp [hlast], hstop⟩⟩
    have hts : os ++ (us ++ cs) ++ t :: (os' ++ (us' ++ cs')) =
        os ++ (us ++ (cs ++ t :: (os' ++ us')) ++ cs') := by simp
    refine ⟨us ++ (cs ++ t :: (os' ++ us')), 0, .of_spells hts ?_ hspan ?_⟩
    · rw [hbrackets]
      exact ⟨hleft.opening, hright.closing, hleft.opened, hright.closed⟩
    · intro os'' cs'' hos
      rw [hbrackets] at hos
      have hl := hcore.spells os'' cs ⟨hos.opening, hleft.closing, hos.opened, hleft.closed⟩
      have hr := hcore'.spells os' cs'' ⟨hright.opening, hos.closing, hright.opened, hos.closed⟩
      simpa using Expression.binary hop hl ht hr
  | @call _ us f o c es hf ho hes hc =>
    have hargs := hes.balanced fun _ _ ⟨he, _⟩ => he.balanced
    obtain ⟨hname, os, cs, k, rfl, hos, hcallee⟩ := hf.exists_core
    have hbrackets : brackets (f :: (cs ++ o :: (us ++ [c]))) = ⟨k, 0⟩ := by
      simp [hname, ho, hc, hargs, Token.brackets_of_closing hos.closing, hos.closed,
        TokenKind.brackets, Brackets.append, Brackets.balanced]
    have hts : os ++ f :: cs ++ o :: (us ++ [c]) = os ++ (f :: (cs ++ o :: (us ++ [c])) ++ []) := by
      simp
    refine ⟨f :: (cs ++ o :: (us ++ [c])), 0, .of_spells hts ?_ ?_ ?_⟩
    · rw [hbrackets]
      exact ⟨hos.opening, by simp, hos.opened, rfl⟩
    · exact ⟨⟨f, _, rfl, rfl⟩, ⟨f :: (cs ++ o :: us), c, by simp, rfl⟩⟩
    · intro os' cs' hos'
      rw [hbrackets] at hos'
      rw [hos'.eq_nil_right]
      have hf := hcallee os' cs ⟨hos'.opening, hos.closing, hos'.opened, hos.closed⟩
      simpa using Expression.call hf ho (hes.imp fun _ _ ⟨he, _⟩ => he) hc

end Phrase

end SimpleLang
