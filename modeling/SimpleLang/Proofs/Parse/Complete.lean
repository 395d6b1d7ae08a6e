import SimpleLang.Proofs.Parse.Sound

/-!
# Phrases are read as what they spell

The converse of `SimpleLang.Proofs.Parse.Sound`: where the tokens to come begin with a phrase, and
the token after it cannot go on with it, the parser of that sort of phrase passes over exactly these
tokens and gives the tree that they spell (`Parser.program_accepts`).

What can follow depends on the sort.  After an expression of a level, no token may bind more tightly
than that level allows; after a statement that could take an `else`, there may be none.

The loop over operators turns the tree of a left-associative operator inside out: the parser reaches
the innermost left operand first.  So the statement that is carried through an expression is that
reading it from its beginning is the same as extending it at its end
(`Parser.exprWithin_eq_extendWithin`).
-/

namespace SimpleLang

namespace Phrase

variable {α : Type} {L : List Token → α → Prop} {F G : TokenKind → Prop} {ts us : List Token}

/-- There is a first token, and its kind is such. -/
def Starts (F : TokenKind → Prop) (ts : List Token) : Prop := ∃ t us, ts = t :: us ∧ F t.kind

theorem Starts.imp (h : Starts F ts) (hFG : ∀ k, F k → G k) : Starts G ts := by
  obtain ⟨t, us, hts, ht⟩ := h
  exact ⟨t, us, hts, hFG _ ht⟩

theorem Starts.ne_nil (h : Starts F ts) : ts ≠ [] := by
  obtain ⟨t, us, rfl, -⟩ := h
  simp

theorem Starts.append (h : Starts F ts) (us : List Token) : Starts F (ts ++ us) := by
  obtain ⟨t, vs, rfl, ht⟩ := h
  exact ⟨t, vs ++ us, rfl, ht⟩

theorem Starts.current {c c' : Cursor} (h : Starts F ts) (hpass : c.Passes ts c') :
    F c.current.kind := by
  obtain ⟨t, us, rfl, ht⟩ := h
  rwa [hpass.current_eq]

theorem Callee.expression {f : Token} (h : Callee ts f) :
    Expression 4 ts (.name f.span f.text) := by
  induction h with
  | name hk => exact .name hk
  | group ho _ hc ih => exact .group ho (ih.loosen (Nat.zero_le 4)) hc

theorem Callee.starts {f : Token} (h : Callee ts f) :
    Starts (fun k => (Grammar.standard.opening k).isSome) ts := by
  cases h with
  | name hk => exact ⟨_, _, rfl, by simp [hk, Grammar.standard]⟩
  | group ho _ _ => exact ⟨_, _, rfl, by simp [ho, Grammar.standard]⟩

/-- An expression begins with a token that opens one. -/
theorem Expression.starts {n : Nat} {e : Expr} (h : Expression n ts e) :
    Starts (fun k => (Grammar.standard.opening k).isSome) ts := by
  induction h using Expression.induct with
  | tighter _ ih => exact ih
  | binary _ _ _ _ ih _ => exact ih.append _
  | call hf _ _ _ => exact hf.starts.append _
  | group ho _ _ _ => exact ⟨_, _, rfl, by simp [ho, Grammar.standard]⟩
  | number hk _ => exact ⟨_, _, rfl, by simp [hk, Grammar.standard]⟩
  | true hk => exact ⟨_, _, rfl, by simp [hk, Grammar.standard]⟩
  | false hk => exact ⟨_, _, rfl, by simp [hk, Grammar.standard]⟩
  | name hk => exact ⟨_, _, rfl, by simp [hk, Grammar.standard]⟩

theorem TypedName.starts {d : Decl} (h : TypedName ts d) :
    Starts (fun k => k.startsDeclaration = true) ts := by
  obtain ⟨hk, -⟩ := h
  refine ⟨_, _, rfl, ?_⟩
  generalize Token.kind _ = kind at hk
  cases hk <;> rfl

theorem Declaration.starts {d : Decl} (h : Declaration ts d) :
    Starts (fun k => k.startsDeclaration = true) ts := by
  obtain ⟨hd, -⟩ := h
  exact hd.starts.append _

/-- A statement begins with a token that tells its form. -/
theorem Statement.starts {s : Stmt} (h : Statement ts s) :
    Starts (fun k => (Grammar.standard.statement k).isSome) ts := by
  cases h with
  | block ho _ _ _ => exact ⟨_, _, rfl, by simp [ho, Grammar.standard]⟩
  | assign hx _ _ _ => exact ⟨_, _, rfl, by simp [hx, Grammar.standard]⟩
  | ifThen hk _ _ => exact ⟨_, _, rfl, by simp [hk, Grammar.standard]⟩
  | ifElse hk _ _ _ _ => exact ⟨_, _, rfl, by simp [hk, Grammar.standard]⟩
  | «while» hk _ _ => exact ⟨_, _, rfl, by simp [hk, Grammar.standard]⟩
  | «return» hk _ _ => exact ⟨_, _, rfl, by simp [hk, Grammar.standard]⟩

/-- The statements of a sequence, when each of them is read with its `else` at the nearest
conditional. -/
theorem Sequence.nearest {ss : List Stmt} (h : Sequence Statement ts ss)
    (hnear : ∀ s ∈ ss, s.NearestElse) : Sequence NearestStatement ts ss := by
  induction h with
  | nil => exact .nil
  | cons hs _ ih =>
    obtain ⟨hnear, hrest⟩ := List.forall_mem_cons.1 hnear
    exact .cons ⟨hs, hnear⟩ (ih hrest)

end Phrase

namespace Parser

open Phrase Grammar

variable {α : Type} {c c' : Cursor} {t : Token}

/-- A bound on the tokens to come is not zero. -/
theorem exists_fuel {n : Nat} (h : c.remaining ≤ n) : ∃ m, n = m + 1 :=
  Nat.exists_eq_add_one.2 (Nat.lt_of_lt_of_le c.remaining_pos h)

/-! ### Lists -/

variable {L : List Token → α → Prop} {item : Parser α} {test : TokenKind → Bool}
  {F : TokenKind → Prop} {N : Nat} {ts : List Token} {as : List α}

/-- A parser accepts phrases, at places with at most `N` tokens to come, where a token of a certain
kind follows. -/
def Accepts (N : Nat) (L : List Token → α → Prop) (F : TokenKind → Prop) (x : Parser α) : Prop :=
  ∀ (ts : List Token) (a : α) (c c' : Cursor), L ts a → c.Passes ts c' → c.remaining ≤ N →
    F c'.current.kind → x c = .ok a c'

/-- What follows an item is the next item, or what follows them all. -/
theorem follow_of_sequence (hstarts : ∀ ts a, L ts a → Starts F ts) (h : Sequence L ts as)
    (hpass : c.Passes ts c') (hF : F c'.current.kind) : F c.current.kind := by
  cases h with
  | nil =>
    rw [hpass.eq_of_nil]
    exact hF
  | cons ha _ => exact ((hstarts _ _ ha).append _).current hpass

/-- A sequence is accepted where each item begins with a token that passes the test and what follows
does not. -/
theorem manyWithin_accepts (hitem : Accepts N L F item)
    (hstarts : ∀ ts a, L ts a → Starts (fun k => test k = true ∧ F k) ts)
    (h : Sequence L ts as) : ∀ (n : Nat) (c c' : Cursor), c.Passes ts c' → c.remaining ≤ n →
      c.remaining ≤ N → test c'.current.kind = false → F c'.current.kind →
      manyWithin test item n c = .ok as c' := by
  have hstep : ∀ (n : Nat) (c : Cursor), manyWithin test item (n + 1) c =
      (if test c.current.kind then (do
        let x ← item
        return x :: (← manyWithin test item n)) else return []) c := fun _ _ => rfl
  induction h with
  | nil =>
    intro n c c' hpass hn _ htest _
    obtain rfl := hpass.eq_of_nil
    obtain ⟨n, rfl⟩ := exists_fuel hn
    rw [hstep, if_neg (by simp [htest])]
    rfl
  | @cons us vs a bs ha hbs ih =>
    intro n c c' hpass hn hN htest hF
    obtain ⟨n, rfl⟩ := exists_fuel hn
    obtain ⟨c₁, hpass₁, hpass₂⟩ := hpass.split
    have hhead := hstarts us a ha
    have hlt := hpass₁.remaining_lt hhead.ne_nil
    have hnext := follow_of_sequence (fun ts a h => (hstarts ts a h).imp fun _ h => h.2) hbs hpass₂
      hF
    rw [hstep, if_pos (hhead.current hpass₁).1,
      bind_of_ok (hitem us a c c₁ ha hpass₁ hN hnext),
      bind_of_ok (ih n c₁ c' hpass₂ (by omega) (by omega) htest hF)]
    rfl

theorem many_accepts (hitem : Accepts N L F item)
    (hstarts : ∀ ts a, L ts a → Starts (fun k => test k = true ∧ F k) ts)
    (h : Sequence L ts as) (hpass : c.Passes ts c') (hN : c.remaining ≤ N)
    (htest : test c'.current.kind = false) (hF : F c'.current.kind) :
    many test item c = .ok as c' :=
  manyWithin_accepts hitem hstarts h c.remaining c c' hpass (Nat.le_refl _) hN htest hF

/-- A list with commas is accepted up to its closing bracket. -/
theorem commaList_accepts (hitem : Accepts N L (fun k => k = .comma ∨ k = .closeParen) item)
    (hstarts : ∀ ts a, L ts a → Starts (· ≠ .closeParen) ts) (h : Closed L ts as)
    (hpass : c.Passes ts c') (hN : c.remaining ≤ N) : commaList item c = .ok as c' := by
  have hafter : Accepts N (AfterComma L) (fun k => k = .comma ∨ k = .closeParen)
      (do let _ ← advance; item : Parser α) := by
    rintro _ a c c' ⟨hcomma, ha⟩ hpass hN hF
    obtain ⟨c₁, hpass₁, hpass₂⟩ := hpass.split_cons
    have hle := hpass₁.remaining_le
    rw [bind_of_ok (advance_eq hpass₁), hitem _ a c₁ c' ha hpass₂ (by omega) hF]
  obtain ⟨hsep, hclose⟩ := h
  obtain ⟨c₂, hpass₂, hpass₃⟩ := hpass.split
  have hend : c₂.current.kind = .closeParen := by rw [hpass₃.current_eq, hclose]
  have hfinish : ∀ as, (do let _ ← expect .closeParen; pure as : Parser (List α)) c₂ = .ok as c' :=
    fun as => bind_of_ok (expect_eq hpass₃ hclose)
  -- the first token decides between no item and some
  rw [commaList, bind_of_ok (peekKind_eq c)]
  cases hsep with
  | none =>
    obtain rfl := hpass₂.eq_of_nil
    rw [if_pos hend, pure_bind]
    exact hfinish []
  | some ha has =>
    obtain ⟨c₁, hpass₁, hpass₁₂⟩ := hpass₂.split
    have hle := hpass₁.remaining_le
    have hcomma : ∀ ts a, AfterComma L ts a → Starts (fun k => (k == .comma) = true ∧
        (k = .comma ∨ k = .closeParen)) ts := by
      rintro _ _ ⟨hk, -⟩
      exact ⟨_, _, rfl, by simp [hk]⟩
    have hnext := follow_of_sequence (fun ts a h => (hcomma ts a h).imp fun _ h => h.2) has hpass₁₂
      (.inr hend)
    rw [if_neg ((hstarts _ _ ha).current hpass₁),
      bind_of_ok (hitem _ _ c c₁ ha hpass₁ hN hnext),
      bind_of_ok (many_accepts hafter hcomma has hpass₁₂ (by omega) (by simp [hend]) (.inr hend)),
      pure_bind]
    exact hfinish _

/-! ### Expressions -/

/-- Expressions are accepted at places with at most `N` tokens to come, where no token follows that
binds more tightly. -/
def AcceptsExpr (N : Nat) (E : Power → Parser Expr) : Prop :=
  ∀ p : Power, p.rank ≤ 4 → Accepts N (Expression p.rank) (fun k => k.joinRank ≤ p.rank) (E p)

theorem joining_operator (op : BinaryOp) :
    ∃ p, standard.joining op.token = some (.binary, p) ∧ p.rank = op.level + 1 := by
  cases op <;> exact ⟨_, rfl, rfl⟩

theorem operator?_token (op : BinaryOp) : operator? op.token = some op := by
  cases op <;> rfl

variable {E : Power → Parser Expr} {S : Parser Stmt}

theorem primary_eq_of_atom {e : Expr} (hpass : c.Passes [t] c') (h : t.atom = .ok e) :
    primary c = .ok e c' := by
  rw [primary_eq, hpass.current_eq, h, hpass.next_eq]

theorem opening_of_atom {e : Expr} (h : t.atom = .ok e) :
    standard.opening t.kind = some .primary := by
  obtain ⟨kind, text, span⟩ := t
  cases kind <;> first | rfl | simp [Token.atom] at h

theorem grouping_accepts (hE : AcceptsExpr N E) {o close : Token} {e : Expr}
    (he : Expression 0 ts e) (hclose : close.kind = .closeParen)
    (hpass : c.Passes (o :: (ts ++ [close])) c') (hN : c.remaining ≤ N + 1) :
    grouping E c = .ok e c' := by
  obtain ⟨c₁, hpass₁, hpass⟩ := hpass.split_cons
  obtain ⟨c₂, hpass₂, hpass₃⟩ := hpass.split
  have hlt := hpass₁.remaining_lt (by simp)
  have hend : c₂.current.kind.joinRank ≤ Power.default.rank := by
    rw [hpass₃.current_eq, hclose]
    decide
  unfold grouping
  rw [bind_of_ok (advance_eq hpass₁),
    bind_of_ok (hE .default (by decide) ts e c₁ c₂ he hpass₂ (by omega) hend),
    bind_of_ok (expect_eq hpass₃ hclose)]
  rfl

theorem extendWithin_succ {power : Power} {m : Nat} {e : Expr} :
    extendWithin .standard E power (m + 1) e c =
      (match standard.joining c.current.kind with
        | none => pure e
        | some (joining, next) =>
          if power < next then
            joined E e next joining >>= fun e' => extendWithin .standard E power m e'
          else pure e : Parser Expr) c := rfl

/-- An expression that is not extended any more. -/
theorem extendWithin_stop {power : Power} {m : Nat} {e : Expr}
    (h : c.current.kind.joinRank ≤ power.rank) :
    extendWithin .standard E power m e c = .ok e c := by
  cases m with
  | zero => rfl
  | succ m =>
    rw [extendWithin_succ]
    cases hjoin : standard.joining c.current.kind with
    | none => rfl
    | some joining =>
      obtain ⟨joining, next⟩ := joining
      have hge : ¬ power < next := by
        rw [joinRank_of_joining hjoin] at h
        exact Nat.not_lt.2 h
      dsimp only
      rw [if_neg hge]
      rfl

/-- An expression that is extended once more. -/
theorem extendWithin_step {power next : Power} {joining : Joining} {m : Nat} {e e' : Expr}
    (hjoin : standard.joining c.current.kind = some (joining, next)) (hlt : power < next)
    (h : joined E e next joining c = .ok e' c') :
    extendWithin .standard E power (m + 1) e c = extendWithin .standard E power m e' c' := by
  rw [extendWithin_succ, hjoin]
  dsimp only
  rw [if_pos hlt, bind_of_ok h]

theorem exprWithin_eq_of_opened {n : Nat} {power : Power} {opening : Opening} {e : Expr}
    (hopen : standard.opening c.current.kind = some opening)
    (h : opened (exprWithin .standard n) opening c = .ok e c') :
    exprWithin .standard (n + 1) power c =
      extendWithin .standard (exprWithin .standard n) power c'.remaining e c' := by
  rw [exprWithin, bind_of_ok (peekKind_eq c), hopen]
  dsimp only
  rw [bind_of_ok h]
  rfl

/-- A name in brackets is read like a name. -/
theorem opened_of_callee (hE : AcceptsExpr N E) {f : Token} (h : Callee ts f)
    (hpass : c.Passes ts c') (hN : c.remaining ≤ N + 1) :
    ∃ opening, standard.opening c.current.kind = some opening ∧
      opened E opening c = .ok (.name f.span f.text) c' := by
  cases h with
  | name hk =>
    refine ⟨.primary, by simp [hpass.current_eq, hk, standard], ?_⟩
    exact primary_eq_of_atom hpass (by simp [Token.atom, hk])
  | group ho hf hclose =>
    refine ⟨.grouping, by simp [hpass.current_eq, ho, standard], ?_⟩
    exact grouping_accepts hE (hf.expression.loosen (Nat.zero_le 4)) hclose hpass hN

theorem binary_accepts (hE : AcceptsExpr N E) {op : BinaryOp} {p : Power} {left right : Expr}
    (ht : t.kind = op.token) (hright : Expression p.rank ts right)
    (hpass : c.Passes (t :: ts) c') (hN : c.remaining ≤ N + 1)
    (hend : c'.current.kind.joinRank ≤ p.rank) :
    binary E left p c =
      .ok (.binary ⟨left.span.start, right.span.stop⟩ left op right) c' := by
  obtain ⟨c₁, hpass₁, hpass₂⟩ := hpass.split_cons
  have hlt := hpass₁.remaining_lt (by simp)
  have hop : operator? c.current.kind = some op := by
    rw [hpass₁.current_eq, ht, operator?_token]
  rw [binary, bind_of_ok (peekKind_eq c), hop]
  dsimp only
  rw [bind_of_ok (advance_eq hpass₁),
    bind_of_ok (hE p hright.level_le ts right c₁ c' hright hpass₂ (by omega) hend)]
  rfl

theorem call_accepts (hE : AcceptsExpr N E) {f o close : Token} {es : List Expr}
    (hes : Separated (Expression 0) ts es) (hclose : close.kind = .closeParen)
    (hpass : c.Passes (o :: (ts ++ [close])) c') (hN : c.remaining ≤ N + 1) :
    call E (.name f.span f.text) c =
      .ok (.call ⟨f.span.start, close.span.stop⟩ f.text es) c' := by
  obtain ⟨c₁, hpass₁, hpass₂⟩ := hpass.split_cons
  have hlt := hpass₁.remaining_lt (by simp)
  have hargument :
      Accepts N (Expression 0) (fun k => k = .comma ∨ k = .closeParen) (E .default) := by
    intro ts e c c' he hpass hN hF
    refine hE .default (by decide) ts e c c' he hpass hN ?_
    rcases hF with hF | hF <;> rw [hF] <;> decide
  have hstarts : ∀ ts e, Expression 0 ts e → Starts (· ≠ .closeParen) ts := fun ts e he =>
    he.starts.imp fun k hk h => by simp [h, standard] at hk
  unfold call
  dsimp only
  rw [bind_of_ok (advance_eq hpass₁),
    bind_of_ok (commaList_accepts hargument hstarts (.mk hes hclose) hpass₂ (by omega)),
    ← hpass₂.lastPosition_eq]
  rfl

/-- Reading an expression from its beginning is extending it at its end. -/
theorem exprWithin_eq_extendWithin {n : Nat} (hE : AcceptsExpr n (exprWithin .standard n))
    {power : Power} {l : Nat} {e : Expr} (h : Expression l ts e) :
    ∀ c c' : Cursor, c.Passes ts c' → c.remaining ≤ n + 1 → power.rank ≤ l →
      c'.current.kind.joinRank ≤ l + 1 →
      ∃ m, c'.remaining ≤ m ∧ exprWithin .standard (n + 1) power c =
        extendWithin .standard (exprWithin .standard n) power m e c' := by
  have hatom : ∀ {t : Token} {e} (c c' : Cursor), t.atom = .ok e → c.Passes [t] c' →
      ∃ m, c'.remaining ≤ m ∧ exprWithin .standard (n + 1) power c =
        extendWithin .standard (exprWithin .standard n) power m e c' := by
    intro t e c c' he hpass
    have hopen : standard.opening c.current.kind = some .primary := by
      rw [hpass.current_eq]
      exact opening_of_atom he
    exact ⟨_, Nat.le_refl _, exprWithin_eq_of_opened hopen (primary_eq_of_atom hpass he)⟩
  induction h using Expression.induct with
  | tighter _ ih =>
    intro c c' hpass hn hpower hend
    exact ih c c' hpass hn (by omega) (by omega)
  | number hk hvalue =>
    exact fun c c' hpass _ _ _ => hatom c c' (by simp [Token.atom, hk, hvalue]) hpass
  | true hk => exact fun c c' hpass _ _ _ => hatom c c' (by simp [Token.atom, hk]) hpass
  | false hk => exact fun c c' hpass _ _ _ => hatom c c' (by simp [Token.atom, hk]) hpass
  | name hk => exact fun c c' hpass _ _ _ => hatom c c' (by simp [Token.atom, hk]) hpass
  | group ho he hclose =>
    intro c c' hpass hn _ _
    have hopen : standard.opening c.current.kind = some .grouping := by
      simp [hpass.current_eq, ho, standard]
    exact ⟨_, Nat.le_refl _,
      exprWithin_eq_of_opened hopen (grouping_accepts hE he hclose hpass hn)⟩
  | @binary _ _ us _ op _ right hop hl ht hr ih _ =>
    intro c c' hpass hn hpower hend
    obtain ⟨p, hjoin, hp⟩ := joining_operator op
    obtain ⟨c₁, hpass₁, hpass₂⟩ := hpass.split
    have hle := hpass₁.remaining_le
    rw [← ht, ← hpass₂.current_eq] at hjoin
    obtain ⟨m, hm, hread⟩ := ih c c₁ hpass₁ hn hpower (by rw [joinRank_of_joining hjoin]; omega)
    obtain ⟨m, rfl⟩ := exists_fuel hm
    have hlt := hpass₂.remaining_lt (by simp)
    have hright : Expression p.rank us right := by rwa [hp, hop]
    refine ⟨m, by omega, hread.trans (extendWithin_step hjoin ?_ ?_)⟩
    · change power.rank < p.rank
      omega
    · exact binary_accepts hE ht hright hpass₂ (by omega) (by omega)
  | call hf ho hes hclose =>
    intro c c' hpass hn hpower _
    obtain ⟨c₁, hpass₁, hpass₂⟩ := hpass.split
    have hle := hpass₁.remaining_le
    obtain ⟨opening, hopen, hname⟩ := opened_of_callee hE hf hpass₁ hn
    have hjoin : standard.joining c₁.current.kind = some (.call, .call) := by
      simp [hpass₂.current_eq, ho, standard]
    have hlt := hpass₂.remaining_lt (by simp)
    obtain ⟨m, hm⟩ := exists_fuel (Nat.le_refl c₁.remaining)
    refine ⟨m, by omega, (exprWithin_eq_of_opened hopen hname).trans ?_⟩
    rw [hm]
    refine extendWithin_step hjoin (show power.rank < 5 by omega) ?_
    exact call_accepts hE (hes.imp fun _ _ h => h.1) hclose hpass₂ (by omega)

theorem exprWithin_accepts : ∀ n, AcceptsExpr n (exprWithin .standard n) := by
  intro n
  induction n with
  | zero =>
    intro p _ ts e c c' _ _ hn
    exact absurd c.remaining_pos (by omega)
  | succ n ih =>
    intro p _ ts e c c' he hpass hn hend
    obtain ⟨m, -, hread⟩ := exprWithin_eq_extendWithin ih he c c' hpass hn (Nat.le_refl _)
      (Nat.le_succ_of_le hend)
    rw [hread, extendWithin_stop hend]

theorem expr_accepts {e : Expr} (h : Expression 0 ts e) (hpass : c.Passes ts c')
    (hend : c'.current.kind.joinRank = 0) : expr .standard .default c = .ok e c' :=
  exprWithin_accepts c.remaining .default (by decide) ts e c c' h hpass (Nat.le_refl _)
    (Nat.le_of_eq hend)

/-! ### Declarations -/

theorem declaredType_accepts {type : Option BaseType} (htype : Annotation t.kind type)
    (hpass : c.Passes [t] c') : declaredType c = .ok type c' := by
  have hfinish : ∀ type, (do let _ ← advance; pure type : Parser (Option BaseType)) c =
      .ok type c' := fun _ => bind_of_ok (advance_eq hpass)
  rw [← hpass.current_eq] at htype
  unfold declaredType
  rw [bind_of_ok (peekKind_eq c)]
  generalize c.current.kind = kind at htype
  cases htype <;> exact hfinish _

theorem typedName_accepts {d : Decl} (h : TypedName ts d) (hpass : c.Passes ts c') :
    typedName c = .ok d c' := by
  obtain ⟨htype, hx⟩ := h
  obtain ⟨c₁, hpass₁, hpass₂⟩ := hpass.split_cons
  rw [typedName, bind_of_ok (position_eq c), bind_of_ok (declaredType_accepts htype hpass₁),
    bind_of_ok (expectOr_eq hpass₂ hx), ← hpass₁.current_eq, ← hpass₂.lastPosition_eq_stop]
  rfl

theorem declaration_accepts {d : Decl} (h : Declaration ts d) (hpass : c.Passes ts c') :
    declaration c = .ok d c' := by
  obtain ⟨hd, hsemicolon⟩ := h
  obtain ⟨c₁, hpass₁, hpass₂⟩ := hpass.split
  unfold declaration
  rw [bind_of_ok (typedName_accepts hd hpass₁),
    bind_of_ok (expect_eq hpass₂ hsemicolon)]
  rfl

/-! ### Statements -/

/-- What a token that begins a statement cannot be. -/
theorem statement_isSome {k : TokenKind} (h : (standard.statement k).isSome) :
    k.joinRank = 0 ∧ k ≠ .closeCurly ∧ k ≠ .eof ∧ k ≠ .elseKw ∧ k ≠ .funcKw ∧
      k.startsDeclaration = false := by
  cases k <;> revert h <;> decide

/-- Statements are accepted at places with at most `N` tokens to come, where no `else` follows that
they could take. -/
def AcceptsStmt (N : Nat) (S : Parser Stmt) : Prop :=
  ∀ (ts : List Token) (s : Stmt) (c c' : Cursor), NearestStatement ts s → c.Passes ts c' →
    c.remaining ≤ N → (s.endsOpen = true → c'.current.kind ≠ .elseKw) → S c = .ok s c'

/-- A condition ends where a statement begins. -/
theorem condition_accepts {e : Expr} {s : Stmt} {us : List Token} {c'' : Cursor}
    (he : Expression 0 ts e) (hs : Statement us s) (hpass : c.Passes ts c')
    (hpass' : c'.Passes us c'') : expr .standard .default c = .ok e c' :=
  expr_accepts he hpass (statement_isSome (hs.starts.current hpass')).1

theorem block_accepts (hS : AcceptsStmt N S) {o close : Token} {us : List Token} {ds : List Decl}
    {ss : List Stmt} (ho : o.kind = .openCurly) (hds : Sequence Declaration ts ds)
    (hss : Sequence NearestStatement us ss) (hclose : close.kind = .closeCurly)
    (hpass : c.Passes (o :: (ts ++ (us ++ [close]))) c') (hN : c.remaining ≤ N + 1) :
    block S c = .ok (.block ⟨o.span.start, close.span.stop⟩ ds ss) c' := by
  obtain ⟨c₁, hpass₁, hpass⟩ := hpass.split_cons
  obtain ⟨c₂, hpass₂, hpass⟩ := hpass.split
  obtain ⟨c₃, hpass₃, hpass₄⟩ := hpass.split
  have hlt := (hpass₁.trans hpass₂).remaining_lt (by simp)
  have hend : c₃.current.kind = .closeCurly := by rw [hpass₄.current_eq, hclose]
  have hdecl : Accepts c₁.remaining Declaration (fun _ => True) declaration :=
    fun _ _ _ _ hd hpass _ _ => declaration_accepts hd hpass
  have hstmt : Accepts N NearestStatement (· ≠ .elseKw) S :=
    fun ts s c c' hs hpass hN helse => hS ts s c c' hs hpass hN fun _ => helse
  have hstarts : ∀ us s, NearestStatement us s → Starts (fun k =>
      (k != .closeCurly && k != .eof) = true ∧ k ≠ .elseKw) us := fun us s hs =>
    hs.1.starts.imp fun k hk => by
      obtain ⟨-, hcurly, heof, helse, -⟩ := statement_isSome hk
      simp [hcurly, heof, helse]
  -- declarations end where statements begin, or at the closing brace
  have hmiddle : c₂.current.kind.startsDeclaration = false := by
    refine follow_of_sequence (F := fun k => k.startsDeclaration = false) ?_ hss hpass₃ (by
      simp [hend, TokenKind.startsDeclaration])
    exact fun us s hs => hs.1.starts.imp fun k hk => (statement_isSome hk).2.2.2.2.2
  unfold block
  rw [bind_of_ok (expect_eq hpass₁ ho),
    bind_of_ok (many_accepts hdecl (fun _ _ hd => hd.starts.imp fun _ hk => ⟨hk, trivial⟩) hds
      hpass₂ (Nat.le_refl _) hmiddle trivial),
    bind_of_ok (many_accepts hstmt hstarts hss hpass₃ (by omega) (by simp [hend])
      (by simp [hend])),
    bind_of_ok (expect_eq hpass₄ hclose), ← hpass₄.lastPosition_eq_stop]
  rfl

theorem assign_accepts {x a semicolon : Token} {e : Expr} (hx : x.kind = .identifier)
    (ha : a.kind = .assignment) (he : Expression 0 ts e) (hsemicolon : semicolon.kind = .semicolon)
    (hpass : c.Passes (x :: a :: (ts ++ [semicolon])) c') :
    assign (expr .standard) c =
      .ok (.assign ⟨x.span.start, semicolon.span.stop⟩ x.text e) c' := by
  obtain ⟨c₁, hpass₁, hpass⟩ := hpass.split_cons
  obtain ⟨c₂, hpass₂, hpass⟩ := hpass.split_cons
  obtain ⟨c₃, hpass₃, hpass₄⟩ := hpass.split
  have hend : c₃.current.kind.joinRank = 0 := by rw [hpass₄.current_eq, hsemicolon]; rfl
  unfold assign
  rw [bind_of_ok (expect_eq hpass₁ hx), bind_of_ok (expectOr_eq hpass₂ ha),
    bind_of_ok (expr_accepts he hpass₃ hend), bind_of_ok (expect_eq hpass₄ hsemicolon),
    ← hpass₄.lastPosition_eq_stop]
  rfl

theorem returned_accepts {k semicolon : Token} {e : Expr} (he : Expression 0 ts e)
    (hsemicolon : semicolon.kind = .semicolon) (hpass : c.Passes (k :: (ts ++ [semicolon])) c') :
    returned (expr .standard) c = .ok (.return ⟨k.span.start, semicolon.span.stop⟩ e) c' := by
  obtain ⟨c₁, hpass₁, hpass⟩ := hpass.split_cons
  obtain ⟨c₂, hpass₂, hpass₃⟩ := hpass.split
  have hend : c₂.current.kind.joinRank = 0 := by rw [hpass₃.current_eq, hsemicolon]; rfl
  unfold returned
  rw [bind_of_ok (advance_eq hpass₁), bind_of_ok (expr_accepts he hpass₂ hend),
    bind_of_ok (expect_eq hpass₃ hsemicolon), ← hpass₃.lastPosition_eq_stop]
  rfl

theorem loop_accepts (hS : AcceptsStmt N S) {k : Token} {us : List Token} {e : Expr} {s : Stmt}
    (he : Expression 0 ts e) (hs : NearestStatement us s) (hpass : c.Passes (k :: (ts ++ us)) c')
    (hN : c.remaining ≤ N + 1) (hopen : s.endsOpen = true → c'.current.kind ≠ .elseKw) :
    loop (expr .standard) S c = .ok (.while ⟨k.span.start, s.span.stop⟩ e s) c' := by
  obtain ⟨c₁, hpass₁, hpass⟩ := hpass.split_cons
  obtain ⟨c₂, hpass₂, hpass₃⟩ := hpass.split
  have hlt := (hpass₁.trans hpass₂).remaining_lt (by simp)
  unfold loop
  rw [bind_of_ok (advance_eq hpass₁),
    bind_of_ok (condition_accepts he hs.1 hpass₂ hpass₃),
    bind_of_ok (hS us s c₂ c' hs hpass₃ (by omega) hopen),
    ← lastPosition_of_statement hs hpass₃]
  rfl

/-- A conditional that no `else` follows. -/
theorem conditional_accepts (hS : AcceptsStmt N S) {k : Token} {us : List Token} {e : Expr}
    {s : Stmt} (he : Expression 0 ts e) (hs : NearestStatement us s)
    (hpass : c.Passes (k :: (ts ++ us)) c') (hN : c.remaining ≤ N + 1)
    (helse : c'.current.kind ≠ .elseKw) :
    conditional (expr .standard) S c = .ok (.ifThen ⟨k.span.start, s.span.stop⟩ e s) c' := by
  obtain ⟨c₁, hpass₁, hpass⟩ := hpass.split_cons
  obtain ⟨c₂, hpass₂, hpass₃⟩ := hpass.split
  have hlt := (hpass₁.trans hpass₂).remaining_lt (by simp)
  unfold conditional
  rw [bind_of_ok (advance_eq hpass₁),
    bind_of_ok (condition_accepts he hs.1 hpass₂ hpass₃),
    bind_of_ok (hS us s c₂ c' hs hpass₃ (by omega) fun _ => helse),
    bind_of_ok (peekKind_eq c'), if_neg helse, ← lastPosition_of_statement hs hpass₃]
  rfl

/-- A conditional whose first branch takes no `else` takes the one that follows. -/
theorem conditional_accepts_else (hS : AcceptsStmt N S) {k l : Token} {us vs : List Token}
    {e : Expr} {s s' : Stmt} (he : Expression 0 ts e) (hs : NearestStatement us s)
    (hclosed : s.endsOpen = false) (hl : l.kind = .elseKw) (hs' : NearestStatement vs s')
    (hpass : c.Passes (k :: (ts ++ (us ++ l :: vs))) c') (hN : c.remaining ≤ N + 1)
    (hopen : s'.endsOpen = true → c'.current.kind ≠ .elseKw) :
    conditional (expr .standard) S c = .ok (.ifElse ⟨k.span.start, s'.span.stop⟩ e s s') c' := by
  obtain ⟨c₁, hpass₁, hpass⟩ := hpass.split_cons
  obtain ⟨c₂, hpass₂, hpass⟩ := hpass.split
  obtain ⟨c₃, hpass₃, hpass⟩ := hpass.split
  obtain ⟨c₄, hpass₄, hpass₅⟩ := hpass.split_cons
  have hlt := (hpass₁.trans hpass₂).remaining_lt (by simp)
  have hle := (hpass₃.trans hpass₄).remaining_le
  unfold conditional
  rw [bind_of_ok (advance_eq hpass₁),
    bind_of_ok (condition_accepts he hs.1 hpass₂ hpass₃),
    bind_of_ok (hS us s c₂ c₃ hs hpass₃ (by omega) (by simp [hclosed])),
    bind_of_ok (peekKind_eq c₃), if_pos (by rw [hpass₄.current_eq, hl]),
    bind_of_ok (advance_eq hpass₄), bind_of_ok (hS vs s' c₄ c' hs' hpass₅ (by omega) hopen),
    ← lastPosition_of_statement hs' hpass₅]
  rfl

theorem stmtWithin_accepts : ∀ n, AcceptsStmt n (stmtWithin .standard n) := by
  intro n
  induction n with
  | zero =>
    intro ts s c c' _ _ hn
    exact absurd c.remaining_pos (by omega)
  | succ n ih =>
    intro ts s c c' ⟨hs, hnear⟩ hpass hn hopen
    have hform : ∀ {k f}, c.current.kind = k → standard.statement k = some f →
        stmtWithin .standard (n + 1) c = form (expr .standard) (stmtWithin .standard n) f c := by
      rintro _ f rfl hf
      rw [stmtWithin, bind_of_ok (peekKind_eq c), hf]
    cases hs with
    | block ho hds hss hclose =>
      rw [hform (by rw [hpass.current_eq, ho]) rfl]
      exact block_accepts ih ho hds (hss.nearest (Stmt.nearestElse_block.1 hnear)) hclose hpass hn
    | assign hx ha he hsemicolon =>
      rw [hform (by rw [hpass.current_eq, hx]) rfl]
      exact assign_accepts hx ha he hsemicolon hpass
    | ifThen hk he hs =>
      rw [hform (by rw [hpass.current_eq, hk]) rfl]
      exact conditional_accepts ih he ⟨hs, Stmt.nearestElse_ifThen.1 hnear⟩ hpass hn (hopen rfl)
    | ifElse hk he hs hl hs' =>
      obtain ⟨hclosed, hnear, hnear'⟩ := Stmt.nearestElse_ifElse.1 hnear
      rw [hform (by rw [hpass.current_eq, hk]) rfl]
      exact conditional_accepts_else ih he ⟨hs, hnear⟩ hclosed hl ⟨hs', hnear'⟩ hpass hn hopen
    | «while» hk he hs =>
      rw [hform (by rw [hpass.current_eq, hk]) rfl]
      exact loop_accepts ih he ⟨hs, Stmt.nearestElse_while.1 hnear⟩ hpass hn hopen
    | «return» hk he hsemicolon =>
      rw [hform (by rw [hpass.current_eq, hk]) rfl]
      exact returned_accepts he hsemicolon hpass

theorem stmt_accepts {s : Stmt} (h : NearestStatement ts s) (hpass : c.Passes ts c')
    (hopen : s.endsOpen = true → c'.current.kind ≠ .elseKw) : stmt .standard c = .ok s c' :=
  stmtWithin_accepts c.remaining ts s c c' h hpass (Nat.le_refl _) hopen

/-! ### Programs -/

theorem function_accepts {f : FuncDef} (h : Function ts f) (hnear : f.body.NearestElse)
    (hpass : c.Passes ts c') (helse : c'.current.kind ≠ .elseKw) :
    function .standard c = .ok f c' := by
  cases h with
  | @mk k x o close us vs ds s hk hx ho hds hclose hs =>
    obtain ⟨c₁, hpass₁, hpass⟩ := hpass.split_cons
    obtain ⟨c₂, hpass₂, hpass⟩ := hpass.split_cons
    obtain ⟨c₃, hpass₃, hpass⟩ := hpass.split_cons
    rw [List.append_cons] at hpass
    obtain ⟨c₄, hpass₄, hpass₅⟩ := hpass.split
    have hparam :
        Accepts c₃.remaining TypedName (fun k => k = .comma ∨ k = .closeParen) typedName :=
      fun _ _ _ _ hd hpass _ _ => typedName_accepts hd hpass
    have hstarts : ∀ ts d, TypedName ts d → Starts (· ≠ .closeParen) ts := fun ts d hd =>
      hd.starts.imp fun k hk h => by simp [h, TokenKind.startsDeclaration] at hk
    unfold function
    rw [bind_of_ok (expect_eq hpass₁ hk), bind_of_ok (expect_eq hpass₂ hx),
      bind_of_ok (expect_eq hpass₃ ho),
      bind_of_ok (commaList_accepts hparam hstarts (.mk hds hclose) hpass₄ (Nat.le_refl _)),
      bind_of_ok (stmt_accepts ⟨hs, hnear⟩ hpass₅ fun _ => helse),
      ← lastPosition_of_statement ⟨hs, hnear⟩ hpass₅]
    rfl

theorem item_accepts {i : Item} (h : NearestTopLevel ts i) (hpass : c.Passes ts c')
    (helse : c'.current.kind ≠ .elseKw) : Parser.item .standard c = .ok i c' := by
  obtain ⟨h, hnear⟩ := h
  rw [Parser.item, bind_of_ok (peekKind_eq c)]
  cases h with
  | function hf =>
    have hk : c.current.kind = .funcKw := by
      obtain ⟨hk, -⟩ := hf
      rw [hpass.current_eq, hk]
    rw [if_pos hk, bind_of_ok (function_accepts hf hnear hpass helse)]
    rfl
  | global hd =>
    have hk := hd.starts.current hpass
    rw [if_neg (by rintro h; simp [h, TokenKind.startsDeclaration] at hk), if_pos hk,
      bind_of_ok (declaration_accepts hd hpass)]
    rfl
  | main hs =>
    obtain ⟨-, -, -, -, hfunc, hdecl⟩ := statement_isSome (hs.starts.current hpass)
    rw [if_neg hfunc, if_neg (by simp [hdecl]),
      bind_of_ok (stmt_accepts ⟨hs, hnear⟩ hpass fun _ => helse)]
    rfl

theorem items_accepts {items : List Item} (h : Sequence NearestTopLevel ts items)
    (hpass : c.Passes ts c') (hend : c'.current.kind = .eof) :
    many (· != .eof) (Parser.item .standard) c = .ok items c' := by
  have hitem : Accepts c.remaining NearestTopLevel (· ≠ .elseKw) (Parser.item .standard) :=
    fun _ _ _ _ hi hpass _ helse => item_accepts hi hpass helse
  refine many_accepts hitem ?_ h hpass (Nat.le_refl _) (by simp [hend]) (by simp [hend])
  rintro ts i ⟨hi, -⟩
  cases hi with
  | function hf =>
    obtain ⟨hk, -⟩ := hf
    exact ⟨_, _, rfl, by simp [hk]⟩
  | global hd => exact hd.starts.imp fun k hk => by cases k <;> revert hk <;> decide
  | main hs => exact hs.starts.imp fun k hk => by cases k <;> revert hk <;> decide

/-- A sequence of items up to the end of input is read as the program of these items. -/
theorem program_accepts {items : List Item} (h : Sequence NearestTopLevel ts items)
    (hpass : c.Passes ts c') (hend : c'.current.kind = .eof) :
    program .standard c = .ok (.ofItems items) c' := by
  unfold program
  rw [bind_of_ok (items_accepts h hpass hend)]
  rfl

end Parser

end SimpleLang
