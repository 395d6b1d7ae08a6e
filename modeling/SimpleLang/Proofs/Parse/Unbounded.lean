import SimpleLang.Proofs.Parse.Misfit

/-!
# Reading without bounds

The bounds on loops and on depth are there for the recursion only.  Without them the parsers would
be given by equations, in which a parser for expressions, say, stands on both sides (`exprStep`,
`extendStep`, `stmtStep`, `manyStep`).  The parsers satisfy these equations at every place of a list
that ends with the end of input, and whatever satisfies them is the same there
(`Parser.expr_unique`, `Parser.stmt_unique`, `Parser.many_unique`).  So the recursion comes to an
end by itself: had it no end at some place, the equations would leave open what is read there.
-/

namespace SimpleLang

/-! ### Everything where it is -/

mutual

theorem Expr.relocate_refl : ∀ e : Expr, e.relocate .refl = e
  | .name _ _ | .int _ _ | .bool _ _ => rfl
  | .binary _ l _ r => by
    rw [relocate, l.relocate_refl, r.relocate_refl]
    rfl
  | .call _ _ es => by
    rw [relocate, Expr.relocateAll_refl es]
    rfl

theorem Expr.relocateAll_refl : ∀ es : List Expr, Expr.relocateAll .refl es = es
  | [] => rfl
  | e :: es => by rw [relocateAll, e.relocate_refl, Expr.relocateAll_refl es]

end

theorem Decl.map_relocate_refl (ds : List Decl) : ds.map (Decl.relocate .refl) = ds :=
  List.map_id ds

mutual

theorem Stmt.relocate_refl : ∀ s : Stmt, s.relocate .refl = s
  | .decl _ _ => rfl
  | .block _ ds ss => by
    rw [relocate, Stmt.relocateAll_refl ss, Decl.map_relocate_refl]
    rfl
  | .assign _ _ e => by
    rw [relocate, e.relocate_refl]
    rfl
  | .ifThen _ c t => by
    rw [relocate, c.relocate_refl, t.relocate_refl]
    rfl
  | .ifElse _ c t e => by
    rw [relocate, c.relocate_refl, t.relocate_refl, e.relocate_refl]
    rfl
  | .while _ c b => by
    rw [relocate, c.relocate_refl, b.relocate_refl]
    rfl
  | .return _ e => by
    rw [relocate, e.relocate_refl]
    rfl

theorem Stmt.relocateAll_refl : ∀ ss : List Stmt, Stmt.relocateAll .refl ss = ss
  | [] => rfl
  | s :: ss => by rw [relocateAll, s.relocate_refl, Stmt.relocateAll_refl ss]

end

/-- The tokens consumed lead to one place only. -/
theorem Cursor.Passes.place_unique {c d d' : Cursor} {ts : List Token} (h : c.Passes ts d)
    (h' : c.Passes ts d') : d = d' := by
  have hrest : d.rest = d'.rest := List.append_cancel_left (h.rest.symm.trans h'.rest)
  obtain ⟨hcurrent, hafter⟩ := List.cons.inj hrest
  have hbefore := h.before.trans h'.before.symm
  have hfile := h.file.trans h'.file.symm
  cases d
  cases d'
  simp_all

namespace Parser

open Cursor Grammar

variable {α β : Type} {ρ : Relocation} {F : α → α} {m M N : Nat} {c : Cursor}
  {E E' : Power → Parser Expr} {X X' : Power → Expr → Parser Expr} {S S' : Parser Stmt} {p : Power}
  {left : Expr}

/-! ### Parsers that agree -/

/-- Two parsers do the same where at most `N` tokens are to come. -/
def AgreeWithin (N : Nat) (x y : Parser α) : Prop :=
  ∀ c : Cursor, c.Terminated → c.remaining ≤ N → x c = y c

/-- Two parsers do the same at every place of a list that ends with the end of input. -/
def Agree (x y : Parser α) : Prop := ∀ c : Cursor, c.Terminated → x c = y c

theorem Agree.within {x y : Parser α} (h : Agree x y) (N : Nat) : AgreeWithin N x y :=
  fun c hc _ => h c hc

theorem agree_of_within {x y : Parser α} (h : ∀ N, AgreeWithin N x y) : Agree x y :=
  fun c hc => h c.remaining c hc (Nat.le_refl _)

theorem agreeWithin_zero (x y : Parser α) : AgreeWithin 0 x y :=
  fun c _ h => absurd c.remaining_pos (by omega)

/-- What is done elsewhere is done at the same place too. -/
theorem Replays.eq {y : Parser α} {r : EStateM.Result Diagnostic Cursor α}
    (h : Replays .refl F m y c r) (hF : ∀ a, F a = a) (hc : c.Terminated) (hm : c.remaining ≤ m) :
    y c = r := by
  have hecho : ∀ {ts c'}, c.Passes ts c' → Echoes .refl c (ts ++ [c'.current]) c := by
    intro ts c' hpass
    exact ⟨hc, (Relocation.map_refl _).symm ▸ hpass.begins, rfl⟩
  cases h with
  | read hpass hreplay =>
    obtain ⟨d, hpass', hy⟩ := hreplay c hm (hecho hpass)
    rw [Relocation.map_refl] at hpass'
    rw [hy, hF, hpass.place_unique hpass']
  | stuck hpass hreplay =>
    obtain ⟨d, hpass', hy⟩ := hreplay c hm (hecho hpass)
    rw [Relocation.map_refl] at hpass'
    rw [hy, hpass.place_unique hpass']
    rfl

/-! ### Expressions -/

/-- Reading an expression, given a parser for the expressions inside it and one for what extends
it. -/
def exprStep (E : Power → Parser Expr) (X : Power → Expr → Parser Expr) (p : Power) :
    Parser Expr := do
  match standard.opening (← peekKind) with
  | none => unexpected
  | some opening => X p (← opened E opening)

/-- Extending an expression by one more operator or call, and then as `X` does. -/
def extendStep (E : Power → Parser Expr) (X : Power → Expr → Parser Expr) (p : Power)
    (left : Expr) : Parser Expr := do
  match standard.joining (← peekKind) with
  | none => return left
  | some (joining, next) =>
    if p < next then X p (← joined E left next joining)
    else return left

/-- Extends an expression as long as its operators bind more tightly than `p`. -/
def extend (p : Power) (left : Expr) : Parser Expr := do
  extendWithin .standard (expr .standard) p (← get).remaining left

theorem exprStep_replays (hE : ReplaysExpr ρ N M E E') (hc : c.Terminated)
    (hN : c.remaining ≤ N + 1)
    (hX : ∀ (left : Expr) (c' : Cursor), c'.Terminated → c'.remaining < c.remaining →
      Replays ρ (Expr.relocate ρ) M (X' p (left.relocate ρ)) c' (X p left c')) :
    Replays ρ (Expr.relocate ρ) (M + 1) (exprStep E' X' p) c (exprStep E X p c) := by
  refine Replays.peekKind ?_
  cases hopen : standard.opening c.current.kind with
  | none => exact Replays.unexpected
  | some opening => exact opened_replays hE hc hN (Nat.le_refl _) hopen hX

theorem extendStep_replays (hE : ReplaysExpr ρ N M E E') (hc : c.Terminated)
    (hN : c.remaining ≤ N + 1)
    (hX : ∀ (left : Expr) (c' : Cursor), c'.Terminated → c'.remaining < c.remaining →
      Replays ρ (Expr.relocate ρ) M (X' p (left.relocate ρ)) c' (X p left c')) :
    Replays ρ (Expr.relocate ρ) (M + 1) (extendStep E' X' p (left.relocate ρ)) c
      (extendStep E X p left c) := by
  refine Replays.peekKind ?_
  cases hjoin : standard.joining c.current.kind with
  | none => exact Replays.pure
  | some joining =>
    dsimp only
    split
    · exact joined_replays hE hc hN (Nat.le_refl _) hjoin hX
    · exact Replays.pure

theorem extend_replays (hc : c.Terminated) :
    Replays ρ (Expr.relocate ρ) m (extend p (left.relocate ρ)) c (extend p left c) :=
  Replays.remaining (g := fun n => extendWithin .standard (expr .standard) p n (left.relocate ρ))
    fun n hn => extendWithin_replays (fun _ _ hc' _ => expr_replays hc') c.remaining n n left c hc
      (Nat.le_refl _) (Nat.le_succ _) (Nat.le_refl n) (Nat.le_succ_of_le hn)

/-- The parser for expressions satisfies its equation. -/
theorem expr_agree (p : Power) :
    Agree (exprStep (expr .standard) extend p) (expr .standard p) := by
  intro c hc
  obtain ⟨n, hn⟩ := Nat.exists_eq_add_one.2 c.remaining_pos
  have hexpr : expr .standard p c = exprStep (exprWithin .standard n)
      (fun p left => do extendWithin .standard (exprWithin .standard n) p (← get).remaining left)
      p c := by
    change exprWithin .standard c.remaining p c = _
    rw [hn]
    rfl
  -- inside, one depth less is enough
  have hE : ReplaysExpr .refl n n (exprWithin .standard n) (expr .standard) :=
    fun p c' hc' hle => Replays.remaining fun k _ => exprWithin_replays n k p c' hc' hle
  rw [hexpr]
  refine Replays.eq (exprStep_replays hE hc (by omega) fun left c' hc' hlt => ?_)
    Expr.relocate_refl hc (by omega)
  exact Replays.remaining fun k hk => extendWithin_replays hE c'.remaining k k left c' hc'
    (Nat.le_refl _) (by omega) (Nat.le_refl k) (by omega)

/-- What extends an expression satisfies its equation. -/
theorem extend_agree (p : Power) (left : Expr) :
    Agree (extendStep (expr .standard) extend p left) (extend p left) := by
  intro c hc
  obtain ⟨n, hn⟩ := Nat.exists_eq_add_one.2 c.remaining_pos
  have hextend : extend p left c = extendStep (expr .standard)
      (fun p => extendWithin .standard (expr .standard) p n) p left c := by
    change extendWithin .standard (expr .standard) p c.remaining left c = _
    rw [hn]
    rfl
  have hE : ReplaysExpr .refl n n (expr .standard) (expr .standard) :=
    fun _ _ hc' _ => expr_replays hc'
  have hstep : Replays .refl (Expr.relocate .refl) (n + 1)
      (extendStep (expr .standard) extend p (left.relocate .refl)) c (extend p left c) := by
    rw [hextend]
    refine extendStep_replays hE hc (by omega) fun left c' hc' hlt => ?_
    exact Replays.remaining
      (g := fun n => extendWithin .standard (expr .standard) p n (left.relocate .refl))
      fun k hk => extendWithin_replays hE n k k left c' hc' (by omega) (by omega) (Nat.le_refl k)
        (by omega)
  rw [Expr.relocate_refl] at hstep
  exact hstep.eq Expr.relocate_refl hc (by omega)

theorem replaysExpr_of_agree (hE : ∀ p, AgreeWithin N (E p) (expr .standard p)) :
    ReplaysExpr .refl N N (expr .standard) E :=
  fun p _ hc _ => (expr_replays hc).congr (Nat.le_refl N) fun d hd hle _ _ => hE p d hd hle

theorem extend_replays_of_agree (hX : ∀ p left, AgreeWithin N (X p left) (extend p left))
    (hc : c.Terminated) :
    Replays .refl (Expr.relocate .refl) N (X p (left.relocate .refl)) c (extend p left c) :=
  (extend_replays hc).congr (Nat.le_refl N) fun d hd hle _ _ => hX p _ d hd hle

/-- With one more token to come, what an equation says follows from what is the same inside. -/
theorem exprStep_congr (hE : ∀ p, AgreeWithin N (E p) (expr .standard p))
    (hX : ∀ p left, AgreeWithin N (X p left) (extend p left)) (p : Power) :
    AgreeWithin (N + 1) (exprStep E X p) (expr .standard p) := by
  intro c hc hN
  rw [← expr_agree p c hc]
  exact (exprStep_replays (replaysExpr_of_agree hE) hc hN fun _ _ hc' _ =>
    extend_replays_of_agree hX hc').eq Expr.relocate_refl hc hN

theorem extendStep_congr (hE : ∀ p, AgreeWithin N (E p) (expr .standard p))
    (hX : ∀ p left, AgreeWithin N (X p left) (extend p left)) (p : Power) (left : Expr) :
    AgreeWithin (N + 1) (extendStep E X p left) (extend p left) := by
  intro c hc hN
  have hstep : Replays .refl (Expr.relocate .refl) (N + 1)
      (extendStep E X p (left.relocate .refl)) c
      (extendStep (expr .standard) extend p left c) :=
    extendStep_replays (replaysExpr_of_agree hE) hc hN fun _ _ hc' _ =>
      extend_replays_of_agree hX hc'
  rw [Expr.relocate_refl] at hstep
  rw [← extend_agree p left c hc]
  exact hstep.eq Expr.relocate_refl hc hN

/-- **The equations for expressions have one solution.** -/
theorem expr_unique :
    ((∀ p, Agree (E p) (exprStep E X p)) ∧ ∀ p left, Agree (X p left) (extendStep E X p left)) ↔
      (∀ p, Agree (E p) (expr .standard p)) ∧ ∀ p left, Agree (X p left) (extend p left) := by
  constructor
  · rintro ⟨hE, hX⟩
    -- by induction on the number of tokens to come
    have hwithin : ∀ N, (∀ p, AgreeWithin N (E p) (expr .standard p)) ∧
        ∀ p left, AgreeWithin N (X p left) (extend p left) := by
      intro N
      induction N with
      | zero => exact ⟨fun _ => agreeWithin_zero _ _, fun _ _ => agreeWithin_zero _ _⟩
      | succ N ih =>
        obtain ⟨ihE, ihX⟩ := ih
        exact ⟨fun p c hc hN => (hE p c hc).trans (exprStep_congr ihE ihX p c hc hN),
          fun p left c hc hN => (hX p left c hc).trans (extendStep_congr ihE ihX p left c hc hN)⟩
    exact ⟨fun p => agree_of_within fun N => (hwithin N).1 p,
      fun p left => agree_of_within fun N => (hwithin N).2 p left⟩
  · rintro ⟨hE, hX⟩
    have hE' := fun N p => (hE p).within N
    have hX' := fun N p left => (hX p left).within N
    exact ⟨fun p c hc => (hE p c hc).trans
        (exprStep_congr (hE' _) (hX' _) p c hc (Nat.le_succ _)).symm,
      fun p left c hc => (hX p left c hc).trans
        (extendStep_congr (hE' _) (hX' _) p left c hc (Nat.le_succ _)).symm⟩

/-! ### Statements -/

/-- Reading a statement, given a parser for the statements inside it. -/
def stmtStep (S : Parser Stmt) : Parser Stmt := do
  match standard.statement (← peekKind) with
  | none => noStatement
  | some f => form (expr .standard) S f

theorem stmtStep_replays (hS : ReplaysStmt ρ N M S S') (hreads : ReadsStmt N S)
    (hc : c.Terminated) (hN : c.remaining ≤ N + 1) :
    Replays ρ (Stmt.relocate ρ) (M + 1) (stmtStep S') c (stmtStep S c) := by
  refine Replays.peekKind ?_
  cases hf : standard.statement c.current.kind with
  | none => exact noStatement_replays
  | some f => exact form_replays hS hreads hc hN hf

/-- The parser for statements satisfies its equation. -/
theorem stmt_agree : Agree (stmtStep (stmt .standard)) (stmt .standard) := by
  intro c hc
  obtain ⟨n, hn⟩ := Nat.exists_eq_add_one.2 c.remaining_pos
  have hstmt : stmt .standard c = stmtStep (stmtWithin .standard n) c := by
    change stmtWithin .standard c.remaining c = _
    rw [hn]
    rfl
  have hS : ReplaysStmt .refl n n (stmtWithin .standard n) (stmt .standard) :=
    fun c' hc' hle => Replays.remaining fun k _ => stmtWithin_replays n k c' hc' hle
  rw [hstmt]
  exact (stmtStep_replays hS (stmtWithin_reads n) hc (by omega)).eq Stmt.relocate_refl hc (by omega)

theorem stmtStep_congr (hS : AgreeWithin N S (stmt .standard)) :
    AgreeWithin (N + 1) (stmtStep S) (stmt .standard) := by
  intro c hc hN
  have hreplays : ReplaysStmt .refl N N (stmt .standard) S :=
    fun _ hc' _ => (stmt_replays hc').congr (Nat.le_refl N) fun d hd hle _ _ => hS d hd hle
  rw [← stmt_agree c hc]
  exact (stmtStep_replays hreplays (fun _ hc' _ => stmt_reading hc') hc hN).eq Stmt.relocate_refl
    hc hN

/-- **The equation for statements has one solution.** -/
theorem stmt_unique : Agree S (stmtStep S) ↔ Agree S (stmt .standard) := by
  constructor
  · intro hS
    refine agree_of_within fun N => ?_
    induction N with
    | zero => exact agreeWithin_zero _ _
    | succ N ih => exact fun c hc hN => (hS c hc).trans (stmtStep_congr ih c hc hN)
  · intro hS c hc
    exact (hS c hc).trans (stmtStep_congr (hS.within _) c hc (Nat.le_succ _)).symm

/-! ### Loops -/

variable {test : TokenKind → Bool} {item : Parser α} {L : Parser (List α)}

/-- One round of a loop. -/
def manyStep (test : TokenKind → Bool) (item : Parser α) (L : Parser (List α)) :
    Parser (List α) := do
  if test (← peekKind) then
    let x ← item
    return x :: (← L)
  else return []

/-- Where the test is passed, an item that is read takes at least one token. -/
def Advances (test : TokenKind → Bool) (item : Parser α) : Prop :=
  ∀ (c c' : Cursor) (a : α), c.Terminated → test c.current.kind = true → item c = .ok a c' →
    c'.Terminated ∧ c'.remaining < c.remaining

/-- Rounds that agree after an item agree. -/
theorem manyStep_congr {L' : Parser (List α)} (hitem : Advances test item)
    (h : AgreeWithin N L L') :
    AgreeWithin (N + 1) (manyStep test item L) (manyStep test item L') := by
  intro c hc hN
  have hround : ∀ K : Parser (List α), manyStep test item K c =
      (if test c.current.kind then do let x ← item; return x :: (← K) else pure []) c :=
    fun _ => rfl
  rw [hround, hround]
  split
  · rename_i htest
    cases hrun : item c with
    | error d c' => rw [bind_of_error hrun, bind_of_error hrun]
    | ok a c' =>
      obtain ⟨hc', hlt⟩ := hitem c c' a hc htest hrun
      have hrest := h c' hc' (by omega)
      rw [bind_of_ok hrun, bind_of_ok hrun]
      change EStateM.bind L _ c' = EStateM.bind L' _ c'
      rw [EStateM.bind, EStateM.bind, hrest]
  · rfl

/-- A loop does not depend on its bound. -/
theorem manyWithin_agree (hitem : Advances test item) :
    ∀ n k, AgreeWithin (min n k) (manyWithin test item n) (manyWithin test item k) := by
  intro n
  induction n with
  | zero => exact fun k => (Nat.zero_min k).symm ▸ agreeWithin_zero _ _
  | succ n ih =>
    intro k
    cases k with
    | zero => exact agreeWithin_zero _ _
    | succ k =>
      rw [Nat.add_min_add_right]
      exact manyStep_congr hitem (ih k)

/-- The loop satisfies its equation. -/
theorem many_agree (hitem : Advances test item) :
    Agree (manyStep test item (many test item)) (many test item) := by
  intro c hc
  obtain ⟨n, hn⟩ := Nat.exists_eq_add_one.2 c.remaining_pos
  have hmany : many test item c = manyStep test item (manyWithin test item n) c := by
    change manyWithin test item c.remaining c = _
    rw [hn]
    rfl
  have hrest : AgreeWithin n (many test item) (manyWithin test item n) :=
    fun c' hc' hle => manyWithin_agree hitem c'.remaining n c' hc' (by omega)
  rw [hmany]
  exact manyStep_congr hitem hrest c hc (by omega)

/-- **The equation for a loop has one solution**, if each item takes a token. -/
theorem many_unique (hitem : Advances test item) :
    Agree L (manyStep test item L) ↔ Agree L (many test item) := by
  constructor
  · intro hL
    refine agree_of_within fun N => ?_
    induction N with
    | zero => exact agreeWithin_zero _ _
    | succ N ih =>
      intro c hc hN
      rw [hL c hc, manyStep_congr hitem ih c hc hN, many_agree hitem c hc]
  · intro hL c hc
    rw [hL c hc, ← many_agree hitem c hc]
    exact (manyStep_congr hitem (hL.within _) c hc (Nat.le_succ _)).symm

end Parser

end SimpleLang
