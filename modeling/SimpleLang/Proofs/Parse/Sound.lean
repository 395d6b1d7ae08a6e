import SimpleLang.Proofs.Parse.Reading

/-!
# What is read is a phrase

With the tables of the language, every parser reads phrases of the grammar and nothing else, and
when it gets stuck, the tokens before can still be completed to a phrase (`Parser.program_reading`).

An expression is read up to a token that does not bind more tightly than the power asked for.
Inside of it, what has been read so far belongs to some level, and the next token binds at most one
step more tightly than that level: this carries the loop over operators
(`Parser.extendWithin_reading`).  A statement that could take an `else` is read up to a token that
is none.
-/

namespace SimpleLang

/-! ### The tables -/

/-- How tightly a token joins an expression to what follows; zero if it does not. -/
def TokenKind.joinRank (k : TokenKind) : Nat :=
  match Grammar.standard.joining k with
  | some (_, p) => p.rank
  | none => 0

namespace Grammar

theorem joinRank_of_joining {k : TokenKind} {j : Joining} {p : Power}
    (h : standard.joining k = some (j, p)) : k.joinRank = p.rank := by
  simp [TokenKind.joinRank, h]

theorem joinRank_of_none {k : TokenKind} (h : standard.joining k = none) : k.joinRank = 0 := by
  simp [TokenKind.joinRank, h]

/-- Nothing binds more tightly than the arguments of a call. -/
theorem joinRank_le (k : TokenKind) : k.joinRank ≤ 5 := by
  cases k <;> decide

/-- The tokens that join with an operand are those of operators, a step above their level. -/
theorem joining_binary {k : TokenKind} {p : Power} (h : standard.joining k = some (.binary, p)) :
    ∃ op, Parser.operator? k = some op ∧ k = op.token ∧ p.rank = op.level + 1 := by
  cases k <;> simp [standard] at h <;> subst h <;> exact ⟨_, rfl, rfl, rfl⟩

/-- The token that joins with arguments is the opening bracket. -/
theorem joining_call {k : TokenKind} {p : Power} (h : standard.joining k = some (.call, p)) :
    k = .openParen ∧ p = .call := by
  cases k <;> simp [standard] at h
  exact ⟨rfl, h.symm⟩

theorem opening_grouping {k : TokenKind} (h : standard.opening k = some .grouping) :
    k = .openParen := by
  cases k <;> simp [standard] at h
  rfl

end Grammar

/-- The expression that a token is by itself. -/
def Token.atom (t : Token) : Except Diagnostic Expr :=
  match t.kind with
  | .number =>
    match Text.readInt64? t.text with
    | some n => .ok (.int t.span n)
    | none => .error ⟨.numberParseError t.text, t.span.start⟩
  | .identifier => .ok (.name t.span t.text)
  | .trueKw => .ok (.bool t.span true)
  | .falseKw => .ok (.bool t.span false)
  | _ => .error ⟨.unexpectedToken t.text, t.span.start⟩

namespace Parser

open Phrase Grammar

variable {c : Cursor} {E : Power → Parser Expr} {S : Parser Stmt} {N : Nat}

/-! ### Expressions -/

theorem primary_eq (c : Cursor) : primary c =
    match c.current.atom with
    | .ok e => .ok e c.next
    | .error d => .error d c := by
  rw [primary, bind_of_ok (peek_eq c), Token.atom]
  dsimp only
  cases c.current.kind
  case number => cases Text.readInt64? c.current.text <;> rfl
  all_goals rfl

theorem expression_of_atom {t : Token} {e : Expr} (h : t.atom = .ok e) :
    t.kind ≠ .eof ∧ Expression 4 [t] e := by
  unfold Token.atom at h
  split at h
  case h_1 hk =>
    split at h
    · rename_i n hn
      cases h
      exact ⟨by simp [hk], .number hk hn⟩
    · cases h
  case h_2 hk => cases h; exact ⟨by simp [hk], .name hk⟩
  case h_3 hk => cases h; exact ⟨by simp [hk], .true hk⟩
  case h_4 hk => cases h; exact ⟨by simp [hk], .false hk⟩
  case h_5 => cases h

theorem about_of_atom {t : Token} {d : Diagnostic} (h : t.atom = .error d) : d.About t := by
  unfold Token.atom at h
  split at h
  case h_1 =>
    split at h
    · cases h
    · cases h; exact ⟨rfl, rfl⟩
  case h_5 => cases h; exact ⟨rfl, rfl⟩
  all_goals cases h

theorem viable_expression {n : Nat} (hn : n ≤ 4) : Viable (Expression n) [] :=
  ⟨[filler .identifier], _, (Expression.name rfl).loosen hn⟩

theorem primary_reading (hc : c.Terminated) :
    Reading c (fun ts e _ => Expression 4 ts e) (Viable (Expression 4)) (primary c) := by
  rw [primary_eq]
  cases hatom : c.current.atom with
  | ok e =>
    obtain ⟨hk, he⟩ := expression_of_atom hatom
    exact .read (hc.passes_next hk) he
  | error d => exact .stuck (.refl c) (about_of_atom hatom) (viable_expression (Nat.le_refl 4))

/-- Expressions are read at places with at most `N` tokens to come: an expression of the level that
belongs to the power, up to a token that does not bind more tightly. -/
def ReadsExpr (N : Nat) (E : Power → Parser Expr) : Prop :=
  ∀ (p : Power) (c : Cursor), p.rank ≤ 4 → c.Terminated → c.remaining ≤ N →
    Reading c (fun ts e c' => Expression p.rank ts e ∧ c'.current.kind.joinRank ≤ p.rank)
      (Viable (Expression p.rank)) (E p c)

theorem grouping_reading (hE : ReadsExpr N E) (hc : c.Terminated) (hN : c.remaining ≤ N + 1)
    (hk : c.current.kind = .openParen) :
    Reading c (fun ts e _ => Expression 4 ts e) (Viable (Expression 4)) (grouping E c) := by
  refine .advance hc (by simp [hk]) fun c' hc' hpass => ?_
  have hlt := hpass.remaining_lt (by simp)
  refine (hE .default c' (by decide) hc' (by omega)).bind ?_ ?_
  · rintro ts ⟨us, e, he⟩
    exact ⟨us ++ [filler .closeParen], e, by
      simpa using Expression.group hk he (filler_kind .closeParen)⟩
  · rintro ts e c'' hpass' ⟨he, -⟩
    refine .expect (hpass'.terminated hc') (by decide) ?_ fun t c₃ _ _ ht => .pure ?_
    · exact ⟨[filler .closeParen], e, by
        simpa using Expression.group hk he (filler_kind .closeParen)⟩
    · exact .group hk he ht

theorem opened_reading (hE : ReadsExpr N E) (hc : c.Terminated) (hN : c.remaining ≤ N + 1)
    {opening : Opening} (hk : standard.opening c.current.kind = some opening) :
    Reading c (fun ts e _ => Expression 4 ts e) (Viable (Expression 4)) (opened E opening c) := by
  cases opening with
  | primary => exact primary_reading hc
  | grouping => exact grouping_reading hE hc hN (opening_grouping hk)

/-- An operator and its right operand after a left operand of the operator's level. -/
theorem binary_reading (hE : ReadsExpr N E) (hc : c.Terminated) (hN : c.remaining ≤ N + 1)
    {p : Power} {op : BinaryOp} (hop : operator? c.current.kind = some op)
    (htoken : c.current.kind = op.token) (hp : p.rank = op.level + 1) {ts : List Token}
    {left : Expr} (hleft : Expression op.level ts left) :
    Reading c
      (fun us e c' => us ≠ [] ∧ Expression op.level (ts ++ us) e ∧
        c'.current.kind.joinRank ≤ op.level + 1)
      (fun us => Viable (Expression op.level) (ts ++ us)) (binary E left p c) := by
  have hlevel := hleft.level_le
  have heof : c.current.kind ≠ .eof := by
    rw [htoken]
    cases op <;> decide
  refine Reading.peekKind ?_
  rw [hop]
  refine .advance hc heof fun c' hc' hpass => ?_
  have hlt := hpass.remaining_lt (by simp)
  have hright := hE p c' (by rw [hp]; cases op <;> decide) hc' (by omega)
  rw [hp] at hright
  refine hright.bind ?_ ?_
  · rintro us ⟨vs, e, he⟩
    exact ⟨vs, _, by simpa using Expression.binary rfl hleft htoken he⟩
  · rintro us right c'' - ⟨hr, hrank⟩
    exact .pure ⟨by simp, by simpa using Expression.binary rfl hleft htoken hr, hrank⟩

/-- The arguments of a call after what is called. -/
theorem call_reading (hE : ReadsExpr N E) (hc : c.Terminated) (hN : c.remaining ≤ N + 1)
    (hk : c.current.kind = .openParen) {ts : List Token} {left : Expr}
    (hleft : Expression 4 ts left) :
    Reading c (fun us e _ => us ≠ [] ∧ Expression 4 (ts ++ us) e)
      (fun us => Viable (Expression 4) (ts ++ us)) (call E left c) := by
  have hstuck : Viable (Expression 4) (ts ++ []) := by simpa using Viable.of_phrase hleft
  cases left with
  | name span x =>
    obtain ⟨f, hf, rfl, rfl⟩ := hleft.callee
    refine .advance hc (by simp [hk]) fun c' hc' hpass => ?_
    have hlt := hpass.remaining_lt (by simp)
    refine (commaList_reading (L := Expression 0) hc' fun c'' hc'' hle =>
      (hE .default c'' (by decide) hc'' (by omega)).imp (fun _ _ _ _ h => h.1)
        fun _ h => h).bind ?_ ?_
    · rintro us ⟨vs, es, hes⟩
      generalize hws : us ++ vs = ws at hes
      cases hes with
      | @mk _ _ close hsep hclose =>
        refine ⟨vs, .call ⟨f.span.start, close.span.stop⟩ f.text es, ?_⟩
        simpa [hws] using Expression.call hf hk hsep hclose
    · rintro _ es c'' hpass' ⟨hsep, hclose⟩
      refine .lastPosition (.pure ⟨by simp, ?_⟩)
      rw [hpass'.lastPosition_eq]
      simpa using Expression.call hf hk hsep hclose
  | _ => exact .complain _ hstuck

/-- The loop over what can be joined to an expression that is read up to here. -/
theorem extendWithin_reading (hE : ReadsExpr N E) {power : Power} :
    ∀ (m n : Nat) (ts : List Token) (left : Expr) (c : Cursor), power.rank ≤ n →
      Expression n ts left → c.Terminated → c.remaining ≤ m → c.remaining ≤ N + 1 →
      c.current.kind.joinRank ≤ n + 1 →
      Reading c
        (fun us e c' => Expression power.rank (ts ++ us) e ∧
          c'.current.kind.joinRank ≤ power.rank)
        (fun us => Viable (Expression power.rank) (ts ++ us))
        (extendWithin .standard E power m left c) := by
  intro m
  induction m with
  | zero =>
    intro n ts left c _ _ _ hm
    exact absurd c.remaining_pos (by omega)
  | succ m ih =>
    intro n ts left c hpower hleft hc hm hN hrank
    -- what is read so far is an expression of the level asked for
    have hloose := hleft.loosen hpower
    refine Reading.peekKind ?_
    cases hjoin : standard.joining c.current.kind with
    | none =>
      refine .pure ⟨by simpa using hloose, ?_⟩
      rw [joinRank_of_none hjoin]
      exact Nat.zero_le _
    | some joining =>
      obtain ⟨joining, next⟩ := joining
      have hnext := joinRank_of_joining hjoin
      dsimp only
      split
      · rename_i hlt
        have hlt : power.rank < next.rank := hlt
        -- after one more step there are fewer tokens to come, so the loop goes on as before
        have hloop : ∀ {n us e c'}, c.Passes us c' → us ≠ [] → power.rank ≤ n →
            Expression n (ts ++ us) e → c'.current.kind.joinRank ≤ n + 1 →
            Reading c'
              (fun vs e c'' => Expression power.rank (ts ++ (us ++ vs)) e ∧
                c''.current.kind.joinRank ≤ power.rank)
              (fun vs => Viable (Expression power.rank) (ts ++ (us ++ vs)))
              (extendWithin .standard E power m e c') := by
          intro n us e c' hpass hus hn he hrank'
          have hless := hpass.remaining_lt hus
          simpa using ih n _ e c' hn he (hpass.terminated hc) (by omega) (by omega) hrank'
        cases joining with
        | binary =>
          obtain ⟨op, hop, htoken, hp⟩ := joining_binary hjoin
          refine (binary_reading hE hc hN hop htoken hp (hleft.loosen (by omega))).bind ?_ ?_
          · rintro us ⟨vs, e, he⟩
            exact ⟨vs, e, he.loosen (by omega)⟩
          · rintro us e c' hpass ⟨hus, he, hrank'⟩
            exact hloop hpass hus (by omega) he hrank'
        | call =>
          obtain ⟨hk, rfl⟩ := joining_call hjoin
          have hn : n = 4 := by
            have := hleft.level_le
            have : Power.call.rank = 5 := rfl
            omega
          subst hn
          refine (call_reading hE hc hN hk hleft).bind ?_ ?_
          · rintro us ⟨vs, e, he⟩
            exact ⟨vs, e, he.loosen hpower⟩
          · rintro us e c' hpass ⟨hus, he⟩
            exact hloop hpass hus hpower he (joinRank_le _)
      · rename_i hge
        have hge : ¬ power.rank < next.rank := hge
        exact .pure ⟨by simpa using hloose, by omega⟩

theorem exprWithin_reads : ∀ n, ReadsExpr n (exprWithin .standard n) := by
  intro n
  induction n with
  | zero =>
    intro p c _ _ hn
    exact absurd c.remaining_pos (by omega)
  | succ n ih =>
    intro p c hp hc hn
    refine Reading.peekKind ?_
    cases hopen : standard.opening c.current.kind with
    | none => exact .unexpected (viable_expression hp)
    | some opening =>
      refine (opened_reading ih hc hn hopen).bind ?_ fun ts left c' hpass hleft => ?_
      · rintro ts ⟨us, e, he⟩
        exact ⟨us, e, he.loosen hp⟩
      · exact extendWithin_reading ih c'.remaining 4 ts left c' hp hleft (hpass.terminated hc)
          (Nat.le_refl _) (Nat.le_trans hpass.remaining_le hn) (joinRank_le _)

theorem expr_reading (hc : c.Terminated) :
    Reading c (fun ts e c' => Expression 0 ts e ∧ c'.current.kind.joinRank ≤ 0)
      (Viable (Expression 0)) (expr .standard .default c) :=
  exprWithin_reads c.remaining .default c (by decide) hc (Nat.le_refl _)

/-! ### Declarations -/

theorem declaredType_reading (hc : c.Terminated) :
    Reading c (fun ts type _ => ts = [c.current] ∧ Annotation c.current.kind type) (· = [])
      (declaredType c) := by
  have hread : ∀ {type}, Annotation c.current.kind type →
      Reading c (fun ts type _ => ts = [c.current] ∧ Annotation c.current.kind type) (· = [])
        ((do let _ ← advance; pure type : Parser (Option BaseType)) c) := by
    intro type htype
    have heof : c.current.kind ≠ .eof := by
      intro heof
      rw [heof] at htype
      cases htype
    exact Reading.advance hc heof fun c' _ _ => .pure ⟨rfl, htype⟩
  refine Reading.peekKind ?_
  cases hk : c.current.kind <;> rw [hk] at hread
  case varKw => exact hread .var
  case intKw => exact hread .int
  case boolKw => exact hread .bool
  all_goals exact .stuck (.refl c) ⟨rfl, rfl⟩ rfl

theorem viable_typedName : Viable TypedName [] :=
  ⟨[filler .varKw, filler .identifier], _, .mk .var rfl⟩

theorem typedName_reading (hc : c.Terminated) :
    Reading c (fun ts d _ => TypedName ts d) (Viable TypedName) (typedName c) := by
  refine (declaredType_reading hc).bind ?_ ?_
  · rintro _ rfl
    exact viable_typedName
  · rintro _ type c' hpass ⟨rfl, htype⟩
    refine .expectOr (hpass.terminated hc) (by decide) (.complain _ ?_) fun x c'' _ hpass' hx =>
      .lastPosition (.pure ?_)
    · exact ⟨[filler .identifier], _, .mk htype rfl⟩
    · rw [hpass'.lastPosition_eq_stop]
      exact .mk htype hx

theorem declaration_reading (hc : c.Terminated) :
    Reading c (fun ts d _ => Declaration ts d) (Viable Declaration) (declaration c) := by
  refine (typedName_reading hc).bind ?_ fun ts d c' hpass hd => ?_
  · rintro ts ⟨us, d, hd⟩
    exact ⟨us ++ [filler .semicolon], d, by simpa using Declaration.mk hd (filler_kind .semicolon)⟩
  · refine .expect (hpass.terminated hc) (by decide) ?_ fun t c'' _ _ ht => .pure (.mk hd ht)
    exact ⟨[filler .semicolon], d, by simpa using Declaration.mk hd (filler_kind .semicolon)⟩

/-! ### Statements -/

theorem nearestStatement_braces :
    NearestStatement [filler .openCurly, filler .closeCurly]
      (.block ⟨(filler .openCurly).span.start, (filler .closeCurly).span.stop⟩ [] []) :=
  .block rfl .nil .nil rfl

theorem viable_statement : Viable NearestStatement [] := ⟨_, _, nearestStatement_braces⟩

/-- Statements are read at places with at most `N` tokens to come, up to a token that is no `else`
if the statement could take one. -/
def ReadsStmt (N : Nat) (S : Parser Stmt) : Prop :=
  ∀ c : Cursor, c.Terminated → c.remaining ≤ N →
    Reading c
      (fun ts s c' => NearestStatement ts s ∧ (s.endsOpen = true → c'.current.kind ≠ .elseKw))
      (Viable NearestStatement) (S c)

theorem block_reading (hS : ReadsStmt N S) (hc : c.Terminated) (hN : c.remaining ≤ N + 1) :
    Reading c (fun ts s _ => NearestStatement ts s ∧ s.endsOpen = false)
      (Viable NearestStatement) (block S c) := by
  have hclose := filler_kind .closeCurly
  refine .expect hc (by decide) viable_statement fun o c₁ hc₁ hpass₁ ho => ?_
  refine (many_reading (fun _ _ h => Declaration.ne_nil h) hc₁ fun c' hc' _ _ =>
    declaration_reading hc').bind ?_ ?_
  · rintro ts ⟨us, ds, hds⟩
    exact ⟨us ++ [filler .closeCurly], _, by simpa using NearestStatement.block ho hds .nil hclose⟩
  rintro ts ds c₂ hpass₂ ⟨hds, -⟩
  have hlt := (hpass₁.trans hpass₂).remaining_lt (by simp)
  refine (many_reading (L := NearestStatement) (fun _ _ h => h.1.ne_nil) (hpass₂.terminated hc₁)
    fun c' hc' hle _ => (hS c' hc' (by omega)).imp (fun _ _ _ _ h => h.1) fun _ h => h).bind ?_ ?_
  · rintro us ⟨vs, ss, hss⟩
    exact ⟨vs ++ [filler .closeCurly], _, by simpa using NearestStatement.block ho hds hss hclose⟩
  rintro us ss c₃ hpass₃ ⟨hss, -⟩
  refine .expect (hpass₃.terminated (hpass₂.terminated hc₁)) (by decide) ?_
    fun t c₄ _ hpass₄ ht => .lastPosition (.pure ?_)
  · exact ⟨[filler .closeCurly], _, by simpa using NearestStatement.block ho hds hss hclose⟩
  · rw [hpass₄.lastPosition_eq_stop]
    exact ⟨by simpa using NearestStatement.block ho hds hss ht, rfl⟩

theorem assign_reading (hc : c.Terminated) :
    Reading c (fun ts s _ => NearestStatement ts s ∧ s.endsOpen = false)
      (Viable NearestStatement) (assign (expr .standard) c) := by
  have hend := filler_kind .semicolon
  have hname : Expression 0 [filler .identifier] _ := (Expression.name rfl).loosen (Nat.zero_le 4)
  refine .expect hc (by decide) viable_statement fun x c₁ hc₁ _ hx => ?_
  refine .expectOr hc₁ (by decide) (.complain _ ?_) fun a c₂ hc₂ _ ha => ?_
  · exact ⟨filler .assignment :: [filler .identifier, filler .semicolon], _,
      .assign hx rfl hname hend⟩
  refine (expr_reading hc₂).bind ?_ ?_
  · rintro ts ⟨us, e, he⟩
    exact ⟨us ++ [filler .semicolon], _, by simpa using NearestStatement.assign hx ha he hend⟩
  rintro ts e c₃ hpass₃ ⟨he, -⟩
  refine .expect (hpass₃.terminated hc₂) (by decide) ?_
    fun t c₄ _ hpass₄ ht => .lastPosition (.pure ?_)
  · exact ⟨[filler .semicolon], _, by simpa using NearestStatement.assign hx ha he hend⟩
  · rw [hpass₄.lastPosition_eq_stop]
    exact ⟨by simpa using NearestStatement.assign hx ha he ht, rfl⟩

theorem returned_reading (hc : c.Terminated) (hk : c.current.kind = .returnKw) :
    Reading c (fun ts s _ => NearestStatement ts s ∧ s.endsOpen = false)
      (Viable NearestStatement) (returned (expr .standard) c) := by
  have hend := filler_kind .semicolon
  refine .advance hc (by simp [hk]) fun c₁ hc₁ _ => ?_
  refine (expr_reading hc₁).bind ?_ ?_
  · rintro ts ⟨us, e, he⟩
    exact ⟨us ++ [filler .semicolon], _, by simpa using NearestStatement.return hk he hend⟩
  rintro ts e c₂ hpass₂ ⟨he, -⟩
  refine .expect (hpass₂.terminated hc₁) (by decide) ?_
    fun t c₃ _ hpass₃ ht => .lastPosition (.pure ?_)
  · exact ⟨[filler .semicolon], _, by simpa using NearestStatement.return hk he hend⟩
  · rw [hpass₃.lastPosition_eq_stop]
    exact ⟨by simpa using NearestStatement.return hk he ht, rfl⟩

/-- Where the last token of a statement was consumed, the statement ends. -/
theorem lastPosition_of_statement {c' : Cursor} {ts : List Token} {s : Stmt}
    (hs : NearestStatement ts s) (h : c.Passes ts c') : c'.lastPosition = s.span.stop := by
  obtain ⟨us, t, rfl, ht⟩ := hs.1.exists_last
  rw [h.lastPosition_eq, ht]

theorem loop_reading (hS : ReadsStmt N S) (hc : c.Terminated) (hN : c.remaining ≤ N + 1)
    (hk : c.current.kind = .whileKw) :
    Reading c
      (fun ts s c' => NearestStatement ts s ∧ (s.endsOpen = true → c'.current.kind ≠ .elseKw))
      (Viable NearestStatement) (loop (expr .standard) S c) := by
  refine .advance hc (by simp [hk]) fun c₁ hc₁ hpass₁ => ?_
  refine (expr_reading hc₁).bind ?_ ?_
  · rintro ts ⟨us, e, he⟩
    exact ⟨us ++ _, _, by simpa using NearestStatement.while hk he nearestStatement_braces⟩
  rintro ts e c₂ hpass₂ ⟨he, -⟩
  have hlt := (hpass₁.trans hpass₂).remaining_lt (by simp)
  refine (hS c₂ (hpass₂.terminated hc₁) (by omega)).bind ?_ ?_
  · rintro us ⟨vs, s, hs⟩
    exact ⟨vs, _, by simpa using NearestStatement.while hk he hs⟩
  rintro us s c₃ hpass₃ ⟨hs, hopen⟩
  refine .lastPosition (.pure ?_)
  rw [lastPosition_of_statement hs hpass₃]
  exact ⟨by simpa using NearestStatement.while hk he hs, hopen⟩

theorem conditional_reading (hS : ReadsStmt N S) (hc : c.Terminated) (hN : c.remaining ≤ N + 1)
    (hk : c.current.kind = .ifKw) :
    Reading c
      (fun ts s c' => NearestStatement ts s ∧ (s.endsOpen = true → c'.current.kind ≠ .elseKw))
      (Viable NearestStatement) (conditional (expr .standard) S c) := by
  refine .advance hc (by simp [hk]) fun c₁ hc₁ hpass₁ => ?_
  refine (expr_reading hc₁).bind ?_ ?_
  · rintro ts ⟨us, e, he⟩
    exact ⟨us ++ _, _, by simpa using NearestStatement.ifThen hk he nearestStatement_braces⟩
  rintro ts e c₂ hpass₂ ⟨he, -⟩
  have hlt := (hpass₁.trans hpass₂).remaining_lt (by simp)
  have hc₂ := hpass₂.terminated hc₁
  refine (hS c₂ hc₂ (by omega)).bind ?_ ?_
  · rintro us ⟨vs, s, hs⟩
    exact ⟨vs, _, by simpa using NearestStatement.ifThen hk he hs⟩
  rintro us s c₃ hpass₃ ⟨hs, hopen⟩
  have hc₃ := hpass₃.terminated hc₂
  have hle := hpass₃.remaining_le
  refine Reading.peekKind ?_
  split
  · rename_i helse
    -- the branch before took every `else` that it could
    have hclosed : s.endsOpen = false := Bool.eq_false_iff.2 fun h => hopen h helse
    refine .advance hc₃ (by simp [helse]) fun c₄ hc₄ hpass₄ => ?_
    have hle' := hpass₄.remaining_le
    refine (hS c₄ hc₄ (by omega)).bind ?_ ?_
    · rintro vs ⟨ws, s', hs'⟩
      exact ⟨ws, _, by simpa using NearestStatement.ifElse hk he hs hclosed helse hs'⟩
    rintro vs s' c₅ hpass₅ ⟨hs', hopen'⟩
    refine .lastPosition (.pure ?_)
    rw [lastPosition_of_statement hs' hpass₅]
    exact ⟨by simpa using NearestStatement.ifElse hk he hs hclosed helse hs', hopen'⟩
  · rename_i helse
    refine .lastPosition (.pure ?_)
    rw [lastPosition_of_statement hs hpass₃]
    exact ⟨by simpa using NearestStatement.ifThen hk he hs, fun _ => helse⟩

theorem noStatement_reading {P : List Token → Stmt → Cursor → Prop} :
    Reading c P (Viable NearestStatement) (noStatement c) := by
  refine Reading.peekKind ?_
  split
  · exact .complain _ viable_statement
  · exact .complain _ viable_statement

theorem form_reading (hS : ReadsStmt N S) (hc : c.Terminated) (hN : c.remaining ≤ N + 1)
    {f : StmtForm} (hf : standard.statement c.current.kind = some f) :
    Reading c
      (fun ts s c' => NearestStatement ts s ∧ (s.endsOpen = true → c'.current.kind ≠ .elseKw))
      (Viable NearestStatement) (form (expr .standard) S f c) := by
  have hclosed : ∀ {r}, Reading c (fun ts s _ => NearestStatement ts s ∧ s.endsOpen = false)
      (Viable NearestStatement) r →
      Reading c
        (fun ts s c' => NearestStatement ts s ∧ (s.endsOpen = true → c'.current.kind ≠ .elseKw))
        (Viable NearestStatement) r := fun h =>
    h.imp (fun _ _ _ _ h => ⟨h.1, by simp [h.2]⟩) fun _ h => h
  cases hk : c.current.kind <;> simp [hk, standard] at hf <;> subst hf
  · exact hclosed (assign_reading hc)
  · exact hclosed (block_reading hS hc hN)
  · exact conditional_reading hS hc hN hk
  · exact loop_reading hS hc hN hk
  · exact hclosed (returned_reading hc hk)

theorem stmtWithin_reads : ∀ n, ReadsStmt n (stmtWithin .standard n) := by
  intro n
  induction n with
  | zero =>
    intro c _ hn
    exact absurd c.remaining_pos (by omega)
  | succ n ih =>
    intro c hc hn
    refine Reading.peekKind ?_
    cases hf : standard.statement c.current.kind with
    | none => exact noStatement_reading
    | some f => exact form_reading ih hc hn hf

theorem stmt_reading (hc : c.Terminated) :
    Reading c
      (fun ts s c' => NearestStatement ts s ∧ (s.endsOpen = true → c'.current.kind ≠ .elseKw))
      (Viable NearestStatement) (stmt .standard c) :=
  stmtWithin_reads c.remaining c hc (Nat.le_refl _)

/-! ### Programs -/

theorem function_reading (hc : c.Terminated) :
    Reading c (fun ts f _ => Function ts f ∧ f.body.NearestElse)
      (Viable fun ts f => Function ts f ∧ f.body.NearestElse) (function .standard c) := by
  have hfunction : ∀ {k x o : Token} {ts us ds s}, k.kind = .funcKw → x.kind = .identifier →
      o.kind = .openParen → Closed TypedName ts ds → NearestStatement us s →
      Function (k :: x :: o :: (ts ++ us)) ⟨x.text, ds, s, ⟨k.span.start, s.span.stop⟩⟩ ∧
        s.NearestElse := by
    rintro k x o _ us ds s hk hx ho ⟨hds, ht⟩ ⟨hs, hnear⟩
    exact ⟨by simpa using Function.mk hk hx ho hds ht hs, hnear⟩
  have hclose : Closed TypedName [filler .closeParen] [] := .mk .none rfl
  refine .expect hc (by decide) ?_ fun k c₁ hc₁ hpass₁ hk => ?_
  · exact ⟨filler .funcKw :: filler .identifier :: filler .openParen :: _, _,
      hfunction rfl rfl rfl hclose nearestStatement_braces⟩
  refine .expect hc₁ (by decide) ?_ fun x c₂ hc₂ hpass₂ hx => ?_
  · exact ⟨filler .identifier :: filler .openParen :: _, _,
      hfunction hk rfl rfl hclose nearestStatement_braces⟩
  refine .expect hc₂ (by decide) ?_ fun o c₃ hc₃ hpass₃ ho => ?_
  · exact ⟨filler .openParen :: _, _, hfunction hk hx rfl hclose nearestStatement_braces⟩
  refine (commaList_reading hc₃ fun c' hc' _ => typedName_reading hc').bind ?_ ?_
  · rintro ts ⟨us, ds, hds⟩
    exact ⟨us ++ _, _, by
      simpa only [List.cons_append, List.append_assoc] using
        hfunction hk hx ho hds nearestStatement_braces⟩
  rintro ts ds c₄ hpass₄ hds
  refine (stmt_reading (hpass₄.terminated hc₃)).bind ?_ ?_
  · rintro us ⟨vs, s, hs⟩
    exact ⟨vs, _, by simpa using hfunction hk hx ho hds hs⟩
  rintro us s c₅ hpass₅ ⟨hs, -⟩
  refine .lastPosition (.pure ?_)
  rw [lastPosition_of_statement hs hpass₅]
  simpa using hfunction hk hx ho hds hs

theorem item_reading (hc : c.Terminated) :
    Reading c (fun ts i _ => NearestTopLevel ts i) (Viable NearestTopLevel) (item .standard c) := by
  refine Reading.peekKind ?_
  split
  · refine (function_reading hc).bind ?_ fun ts f _ _ hf => .pure ?_
    · rintro ts ⟨us, f, hf⟩
      exact ⟨us, .function f, .function hf.1, hf.2⟩
    · rw [List.append_nil]
      exact ⟨.function hf.1, hf.2⟩
  split
  · refine (declaration_reading hc).bind ?_ fun ts d _ _ hd => .pure ?_
    · rintro ts ⟨us, d, hd⟩
      exact ⟨us, .global d, .global hd, trivial⟩
    · rw [List.append_nil]
      exact ⟨.global hd, trivial⟩
  · refine (stmt_reading hc).bind ?_ fun ts s _ _ hs => .pure ?_
    · rintro ts ⟨us, s, hs⟩
      exact ⟨us, .main s, .main hs.1, hs.2⟩
    · rw [List.append_nil]
      exact ⟨.main hs.1.1, hs.1.2⟩

/-- What is read as a program is a sequence of items up to the end of input. -/
theorem program_reading (hc : c.Terminated) :
    Reading c
      (fun ts p c' => (∃ items, Sequence NearestTopLevel ts items ∧ p = .ofItems items) ∧
        c'.current.kind = .eof)
      (Viable (Sequence NearestTopLevel)) (program .standard c) := by
  refine (many_reading (L := NearestTopLevel) (fun _ _ h => h.1.ne_nil) hc fun c' hc' _ _ =>
    item_reading hc').bind (fun _ h => h) ?_
  rintro ts items c' - ⟨hitems, hend⟩
  exact .pure ⟨⟨items, by simpa using hitems, rfl⟩, by simpa using hend⟩

end Parser

end SimpleLang
