import SimpleLang.Parse.Program
import SimpleLang.Proofs.Outcome

/-!
# Complaints about numbers

A numeral that does not fit is reported at the token that it is: whenever a parser fails with that
problem, the token it is stuck at is a number (`Parser.program_complains`).  All parsers get stuck
where they complain, so this goes through every way in which they are put together.
-/

namespace SimpleLang

namespace Parser

variable {α β : Type}

/-- Stuck at `c`, a complaint about a numeral is about a number. -/
def AtNumber (d : Diagnostic) (c : Cursor) : Prop :=
  ∀ text, d.problem = .numberParseError text → c.current.kind = .number

/-- Complaints about numerals are about numbers. -/
def Complains (x : Parser α) : Prop := ∀ c, Raises c x AtNumber

namespace Complains

theorem pure (a : α) : Complains (Pure.pure a : Parser α) := fun _ => .of_ok rfl

theorem bind {x : Parser α} {f : α → Parser β} (hx : Complains x) (hf : ∀ a, Complains (f a)) :
    Complains (x >>= f) :=
  fun c => .bind (hx c) fun a c' _ => hf a c'

theorem peekKind : Complains Parser.peekKind := fun _ => .of_ok rfl

theorem position : Complains Parser.position := fun _ => .of_ok rfl

theorem lastPosition : Complains Parser.lastPosition := fun _ => .of_ok rfl

theorem advance : Complains Parser.advance := fun _ => .of_ok rfl

theorem remaining : Complains (get : Parser Cursor) := fun _ => .of_ok rfl

theorem unexpected : Complains (Parser.unexpected : Parser α) :=
  fun _ => .of_error rfl fun _ h => by cases h

theorem complain (message : String) : Complains (Parser.complain message : Parser α) :=
  fun _ => .of_error rfl fun _ h => by cases h

theorem expectOr {otherwise : Parser Token} (h : Complains otherwise) (kind : TokenKind) :
    Complains (Parser.expectOr kind otherwise) := by
  refine .bind peekKind fun _ => ?_
  split
  · exact advance
  · exact h

theorem expect (kind : TokenKind) : Complains (Parser.expect kind) := expectOr unexpected kind

theorem manyWithin {item : Parser α} (h : Complains item) (test : TokenKind → Bool) (n : Nat) :
    Complains (Parser.manyWithin test item n) := by
  induction n with
  | zero => exact .pure []
  | succ n ih =>
    refine .bind peekKind fun _ => ?_
    split
    · exact h.bind fun _ => ih.bind fun _ => .pure _
    · exact .pure []

theorem many {item : Parser α} (h : Complains item) (test : TokenKind → Bool) :
    Complains (Parser.many test item) :=
  .bind remaining fun _ => h.manyWithin test _

theorem commaList {item : Parser α} (h : Complains item) : Complains (Parser.commaList item) := by
  have hclose : ∀ items : List α,
      Complains (do let _ ← Parser.expect .closeParen; Pure.pure items) :=
    fun items => .bind (expect _) fun _ => .pure items
  refine .bind peekKind fun _ => ?_
  split
  · exact hclose []
  · refine h.bind fun x => (many (.bind advance fun _ => h) _).bind fun xs => ?_
    exact .bind (.pure _) hclose

end Complains

variable {E : Power → Parser Expr} {S : Parser Stmt}

/-! ### Expressions -/

/-- The only place where a numeral is complained about. -/
theorem primary_complains : Complains primary := by
  intro c
  refine .bind (.of_ok rfl) fun t c' hpeek => ?_
  cases hpeek
  dsimp only
  split
  · rename_i hkind
    split
    · exact .of_ok rfl
    · exact .of_error rfl fun _ _ => hkind
  · exact .of_ok rfl
  · exact .of_ok rfl
  · exact .of_ok rfl
  · exact .of_error rfl fun _ h => by cases h

theorem opened_complains (h : ∀ p, Complains (E p)) (o : Opening) : Complains (opened E o) := by
  cases o with
  | primary => exact primary_complains
  | grouping =>
    exact .bind .advance fun _ => (h _).bind fun _ => .bind (.expect _) fun _ => .pure _

theorem joined_complains (h : ∀ p, Complains (E p)) (left : Expr) (p : Power) (j : Joining) :
    Complains (joined E left p j) := by
  cases j with
  | binary =>
    refine .bind .peekKind fun _ => ?_
    split
    · exact .complain _
    · exact .bind .advance fun _ => (h _).bind fun _ => .pure _
  | call =>
    change Complains (call E left)
    unfold call
    split
    · exact .bind .advance fun _ => (h _).commaList.bind fun _ => .bind .lastPosition fun _ =>
        .pure _
    · exact .complain _

theorem extendWithin_complains (g : Grammar) (h : ∀ p, Complains (E p)) (p : Power) (n : Nat)
    (left : Expr) : Complains (extendWithin g E p n left) := by
  induction n generalizing left with
  | zero => exact .pure left
  | succ n ih =>
    refine .bind .peekKind fun _ => ?_
    split
    · exact .pure left
    · split
      · exact (joined_complains h _ _ _).bind ih
      · exact .pure left

theorem exprWithin_complains (g : Grammar) (n : Nat) (p : Power) :
    Complains (exprWithin g n p) := by
  induction n generalizing p with
  | zero => exact .unexpected
  | succ n ih =>
    refine .bind .peekKind fun _ => ?_
    split
    · exact .unexpected
    · exact (opened_complains ih _).bind fun _ => .bind .remaining fun _ =>
        extendWithin_complains g ih p _ _

theorem expr_complains (g : Grammar) (p : Power) : Complains (expr g p) :=
  .bind .remaining fun _ => exprWithin_complains g _ p

/-! ### Declarations and statements -/

theorem typedName_complains : Complains typedName := by
  have hword : ∀ type : Option BaseType, Complains (do let _ ← advance; pure type) :=
    fun type => .bind .advance fun _ => .pure type
  have htype : Complains declaredType := by
    refine .bind .peekKind fun _ => ?_
    dsimp only
    split
    · exact hword _
    · exact hword _
    · exact hword _
    · exact .bind (.complain _) hword
  exact .bind .position fun _ => htype.bind fun _ => .bind (.expectOr (.complain _) _) fun _ =>
    .bind .lastPosition fun _ => .pure _

theorem declaration_complains : Complains declaration :=
  typedName_complains.bind fun _ => .bind (.expect _) fun _ => .pure _

theorem form_complains (hE : ∀ p, Complains (E p)) (hS : Complains S) (f : StmtForm) :
    Complains (form E S f) := by
  cases f with
  | block =>
    exact .bind (.expect _) fun _ => (declaration_complains.many _).bind fun _ =>
      (hS.many _).bind fun _ => .bind (.expect _) fun _ => .bind .lastPosition fun _ => .pure _
  | assign =>
    exact .bind (.expect _) fun _ => .bind (.expectOr (.complain _) _) fun _ => (hE _).bind fun _ =>
      .bind (.expect _) fun _ => .bind .lastPosition fun _ => .pure _
  | «if» =>
    refine .bind .advance fun _ => (hE _).bind fun _ => hS.bind fun _ => .bind .peekKind fun _ => ?_
    split
    · exact .bind .advance fun _ => hS.bind fun _ => .bind .lastPosition fun _ => .pure _
    · exact .bind .lastPosition fun _ => .pure _
  | «while» =>
    exact .bind .advance fun _ => (hE _).bind fun _ => hS.bind fun _ =>
      .bind .lastPosition fun _ => .pure _
  | «return» =>
    exact .bind .advance fun _ => (hE _).bind fun _ => .bind (.expect _) fun _ =>
      .bind .lastPosition fun _ => .pure _

theorem stmtWithin_complains (g : Grammar) (n : Nat) : Complains (stmtWithin g n) := by
  have hnone : Complains noStatement := by
    refine .bind .peekKind fun _ => ?_
    split
    · exact .complain _
    · exact .complain _
  induction n with
  | zero => exact hnone
  | succ n ih =>
    refine .bind .peekKind fun _ => ?_
    split
    · exact hnone
    · exact form_complains (expr_complains g) ih _

theorem stmt_complains (g : Grammar) : Complains (stmt g) :=
  .bind .remaining fun _ => stmtWithin_complains g _

/-! ### Programs -/

theorem item_complains (g : Grammar) : Complains (item g) := by
  refine .bind .peekKind fun _ => ?_
  split
  · refine .bind ?_ fun _ => .pure _
    exact .bind (.expect _) fun _ => .bind (.expect _) fun _ => .bind (.expect _) fun _ =>
      typedName_complains.commaList.bind fun _ => (stmt_complains g).bind fun _ =>
        .bind .lastPosition fun _ => .pure _
  · split
    · exact declaration_complains.bind fun _ => .pure _
    · exact (stmt_complains g).bind fun _ => .pure _

/-- **Complaints about numerals are about numbers**, with any tables. -/
theorem program_complains (g : Grammar) : Complains (program g) :=
  ((item_complains g).many _).bind fun _ => .pure _

end Parser

end SimpleLang
