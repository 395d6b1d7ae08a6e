import SimpleLang.Proofs.Tree

/-!
# The grammar

Which lists of tokens spell which trees, said without a parser.

    item         =  function | declaration | statement
    function     =  `func` name `(` [typed-name {`,` typed-name}] `)` statement
    typed-name   =  (`var` | `int` | `bool`) name
    declaration  =  typed-name `;`
    statement    =  `{` {declaration} {statement} `}`  |  name `:=` expression `;`
                 |  `if` expression statement [`else` statement]
                 |  `while` expression statement  |  `return` expression `;`

Expressions come in levels.  Level `n` is made by the operators of that level, which group to the
left, out of level `n + 1`; the levels 0 to 3 are those of `||` and `&&`, of `=`, `<` and `>`, of
`+` and `-`, and of `*` and `/`.

    expression   =  expression-0
    expression-n =  expression-n operator-n expression-(n+1)  |  expression-(n+1)
    expression-4 =  number | `true` | `false` | name | `(` expression `)`
                 |  callee `(` [expression {`,` expression}] `)`
    callee       =  name | `(` callee `)`

A tree carries the spans of the tokens that it is made of; brackets leave no trace in it.

The rule for conditionals can be used in two ways where one conditional stands inside another.  A
tree is read as `Stmt.NearestElse` when each `else` belongs to the nearest conditional that can take
it.
-/

namespace SimpleLang

namespace BinaryOp

/-- The level of an operator, from the loosest. -/
def level : BinaryOp → Nat
  | .or | .and => 0
  | .equal | .less | .greater => 1
  | .add | .sub => 2
  | .mul | .div => 3

/-- The kind of token that stands for an operator. -/
def token : BinaryOp → TokenKind
  | .add => .plus
  | .sub => .dash
  | .mul => .star
  | .div => .slash
  | .equal => .equals
  | .less => .less
  | .greater => .greater
  | .and => .and
  | .or => .or

end BinaryOp

namespace Phrase

variable {α : Type} {P Q : List Token → α → Prop}

/-! ### Lists of phrases -/

/-- Phrases one after another. -/
inductive Sequence (P : List Token → α → Prop) : List Token → List α → Prop
  | nil : Sequence P [] []
  | cons {ts us : List Token} {a : α} {as : List α} :
    P ts a → Sequence P us as → Sequence P (ts ++ us) (a :: as)

/-- A phrase after a comma. -/
inductive AfterComma (P : List Token → α → Prop) : List Token → α → Prop
  | mk {comma : Token} {ts : List Token} {a : α} :
    comma.kind = .comma → P ts a → AfterComma P (comma :: ts) a

/-- Phrases divided by commas; there may be none. -/
inductive Separated (P : List Token → α → Prop) : List Token → List α → Prop
  | none : Separated P [] []
  | some {ts us : List Token} {a : α} {as : List α} :
    P ts a → Sequence (AfterComma P) us as → Separated P (ts ++ us) (a :: as)

theorem Sequence.imp {ts : List Token} {as : List α} (h : Sequence P ts as)
    (hPQ : ∀ ts a, P ts a → Q ts a) : Sequence Q ts as := by
  induction h with
  | nil => exact .nil
  | cons ha _ ih => exact .cons (hPQ _ _ ha) ih

theorem AfterComma.imp {ts : List Token} {a : α} (h : AfterComma P ts a)
    (hPQ : ∀ ts a, P ts a → Q ts a) : AfterComma Q ts a := by
  cases h with
  | mk hcomma ha => exact .mk hcomma (hPQ _ _ ha)

theorem Separated.imp {ts : List Token} {as : List α} (h : Separated P ts as)
    (hPQ : ∀ ts a, P ts a → Q ts a) : Separated Q ts as := by
  cases h with
  | none => exact .none
  | some ha hs => exact .some (hPQ _ _ ha) (hs.imp fun _ _ h => h.imp hPQ)

theorem Sequence.forall_mem {ts : List Token} {as : List α} (h : Sequence P ts as)
    {R : α → Prop} (hR : ∀ ts a, P ts a → R a) : ∀ a ∈ as, R a := by
  induction h with
  | nil => simp
  | cons ha _ ih => exact List.forall_mem_cons.2 ⟨hR _ _ ha, ih⟩

/-- Each phrase of a sequence is spelled by a stretch of its tokens. -/
theorem Sequence.exists_isInfix {ts : List Token} {as : List α} (h : Sequence P ts as) :
    ∀ a ∈ as, ∃ us, us <:+: ts ∧ P us a := by
  induction h with
  | nil => simp
  | @cons ts us a as ha _ ih =>
    refine List.forall_mem_cons.2 ⟨⟨ts, (List.prefix_append ts us).isInfix, ha⟩, fun b hb => ?_⟩
    obtain ⟨vs, hvs, hb⟩ := ih b hb
    exact ⟨vs, hvs.trans (List.suffix_append ts us).isInfix, hb⟩

theorem Separated.exists_isInfix {ts : List Token} {as : List α} (h : Separated P ts as) :
    ∀ a ∈ as, ∃ us, us <:+: ts ∧ P us a := by
  cases h with
  | none => simp
  | @some ts us a as ha hs =>
    refine List.forall_mem_cons.2 ⟨⟨ts, (List.prefix_append ts us).isInfix, ha⟩, fun b hb => ?_⟩
    obtain ⟨_, hvs, hb⟩ := hs.exists_isInfix b hb
    obtain @⟨comma, vs, _, -, hb⟩ := hb
    exact ⟨vs, ((List.suffix_cons comma vs).isInfix.trans hvs).trans
      (List.suffix_append ts us).isInfix, hb⟩

/-! ### Expressions -/

/-- A name, perhaps in brackets, that can be called; the last argument is the token of the name. -/
inductive Callee : List Token → Token → Prop
  | name {t : Token} : t.kind = .identifier → Callee [t] t
  | group {o c t : Token} {ts : List Token} :
    o.kind = .openParen → Callee ts t → c.kind = .closeParen → Callee (o :: (ts ++ [c])) t

/-- Expressions of a level. -/
inductive Expression : Nat → List Token → Expr → Prop
  /-- An expression of a tighter level. -/
  | tighter {n : Nat} {ts : List Token} {e : Expr} : Expression (n + 1) ts e → Expression n ts e
  /-- Two operands; the left one may be made by an operator of the same level. -/
  | binary {n : Nat} {ts us : List Token} {t : Token} {op : BinaryOp} {left right : Expr} :
    op.level = n → Expression n ts left → t.kind = op.token → Expression (n + 1) us right →
      Expression n (ts ++ t :: us)
        (.binary ⟨left.span.start, right.span.stop⟩ left op right)
  | number {t : Token} {value : Int64} :
    t.kind = .number → Text.readInt64? t.text = some value → Expression 4 [t] (.int t.span value)
  | true {t : Token} : t.kind = .trueKw → Expression 4 [t] (.bool t.span true)
  | false {t : Token} : t.kind = .falseKw → Expression 4 [t] (.bool t.span false)
  | name {t : Token} : t.kind = .identifier → Expression 4 [t] (.name t.span t.text)
  /-- Anything in brackets. -/
  | group {o c : Token} {ts : List Token} {e : Expr} :
    o.kind = .openParen → Expression 0 ts e → c.kind = .closeParen →
      Expression 4 (o :: (ts ++ [c])) e
  /-- A call of a name. -/
  | call {ts us : List Token} {f o c : Token} {es : List Expr} :
    Callee ts f → o.kind = .openParen → Separated (Expression 0) us es → c.kind = .closeParen →
      Expression 4 (ts ++ o :: (us ++ [c])) (.call ⟨f.span.start, c.span.stop⟩ f.text es)

/-- Induction over expressions.  What is shown of an expression can be used of the arguments of a
call. -/
theorem Expression.induct {motive : ∀ n ts e, Expression n ts e → Prop}
    (tighter : ∀ {n ts e} (h : Expression (n + 1) ts e), motive (n + 1) ts e h →
      motive n ts e (.tighter h))
    (binary : ∀ {n ts us} {t : Token} {op : BinaryOp} {left right : Expr} (hop : op.level = n)
      (hl : Expression n ts left) (ht : t.kind = op.token) (hr : Expression (n + 1) us right),
      motive n ts left hl → motive (n + 1) us right hr → motive n _ _ (.binary hop hl ht hr))
    (number : ∀ {t : Token} {value : Int64} (ht : t.kind = .number)
      (hv : Text.readInt64? t.text = some value), motive 4 _ _ (.number ht hv))
    (true : ∀ {t : Token} (ht : t.kind = .trueKw), motive 4 _ _ (.true ht))
    (false : ∀ {t : Token} (ht : t.kind = .falseKw), motive 4 _ _ (.false ht))
    (name : ∀ {t : Token} (ht : t.kind = .identifier), motive 4 _ _ (.name ht))
    (group : ∀ {o c : Token} {ts e} (ho : o.kind = .openParen) (he : Expression 0 ts e)
      (hc : c.kind = .closeParen), motive 0 ts e he → motive 4 _ _ (.group ho he hc))
    (call : ∀ {ts us} {f o c : Token} {es} (hf : Callee ts f) (ho : o.kind = .openParen)
      (hes : Separated (fun us e => ∃ h : Expression 0 us e, motive 0 us e h) us es)
      (hc : c.kind = .closeParen), motive 4 _ _ (.call hf ho (hes.imp fun _ _ ⟨h, _⟩ => h) hc))
    {n : Nat} {ts : List Token} {e : Expr} (h : Expression n ts e) : motive n ts e h := by
  let R : List Token → Expr → Prop := fun us e => ∃ h : Expression 0 us e, motive 0 us e h
  refine @Expression.rec motive (fun ts es _ => Separated R ts es)
    (fun ts es _ => Sequence (AfterComma R) ts es) (fun ts e _ => AfterComma R ts e)
    tighter ?_ number true false name group ?_ .none ?_ .nil ?_ ?_ _ _ _ h
  · exact fun hop hl ht hr => binary hop hl ht hr
  · exact fun hf ho _ hc hes => call hf ho hes hc
  · exact fun he _ hm hes => .some ⟨he, hm⟩ hes
  · exact fun _ _ he hes => .cons he hes
  · exact fun hcomma he hm => .mk hcomma ⟨he, hm⟩

theorem Expression.loosen {m n : Nat} {ts : List Token} {e : Expr} (h : Expression n ts e)
    (hmn : m ≤ n) : Expression m ts e := by
  induction hmn with
  | refl => exact h
  | step _ ih => exact ih (.tighter h)

theorem Expression.level_le {n : Nat} {ts : List Token} {e : Expr} (h : Expression n ts e) :
    n ≤ 4 := by
  induction h using Expression.induct with
  | tighter _ ih => omega
  | @binary _ _ _ _ op _ _ hop =>
    subst hop
    cases op <;> decide
  | _ => exact Nat.le_refl 4

theorem Expression.ne_nil {n : Nat} {ts : List Token} {e : Expr} (h : Expression n ts e) :
    ts ≠ [] := by
  induction h using Expression.induct with
  | tighter _ ih => exact ih
  | _ => simp

/-- Only a name, perhaps in brackets, is read as a name. -/
theorem Expression.callee {n : Nat} {ts : List Token} {span : Span} {x : String}
    (h : Expression n ts (.name span x)) :
    ∃ t, Callee ts t ∧ span = t.span ∧ x = t.text := by
  generalize he : Expr.name span x = e at h
  induction h using Expression.induct with
  | tighter _ ih => exact ih he
  | name hk =>
    cases he
    exact ⟨_, .name hk, rfl, rfl⟩
  | group ho _ hc ih =>
    obtain ⟨t, ht, hspan⟩ := ih he
    exact ⟨t, .group ho ht hc, hspan⟩
  | _ => cases he

/-! ### Declarations and statements -/

/-- The word that declares a type, or that leaves it open. -/
inductive Annotation : TokenKind → Option BaseType → Prop
  | var : Annotation .varKw none
  | int : Annotation .intKw (some .int)
  | bool : Annotation .boolKw (some .bool)

/-- A name with its type. -/
inductive TypedName : List Token → Decl → Prop
  | mk {k x : Token} {type : Option BaseType} :
    Annotation k.kind type → x.kind = .identifier →
      TypedName [k, x] ⟨x.text, type, ⟨k.span.start, x.span.stop⟩⟩

/-- A declaration.  Its span leaves out the semicolon. -/
inductive Declaration : List Token → Decl → Prop
  | mk {ts : List Token} {d : Decl} {semicolon : Token} :
    TypedName ts d → semicolon.kind = .semicolon → Declaration (ts ++ [semicolon]) d

/-- Statements. -/
inductive Statement : List Token → Stmt → Prop
  | block {o c : Token} {ts us : List Token} {ds : List Decl} {ss : List Stmt} :
    o.kind = .openCurly → Sequence Declaration ts ds → Sequence Statement us ss →
      c.kind = .closeCurly →
        Statement (o :: (ts ++ (us ++ [c]))) (.block ⟨o.span.start, c.span.stop⟩ ds ss)
  | assign {x a semicolon : Token} {ts : List Token} {e : Expr} :
    x.kind = .identifier → a.kind = .assignment → Expression 0 ts e →
      semicolon.kind = .semicolon →
        Statement (x :: a :: (ts ++ [semicolon]))
          (.assign ⟨x.span.start, semicolon.span.stop⟩ x.text e)
  | ifThen {k : Token} {ts us : List Token} {e : Expr} {s : Stmt} :
    k.kind = .ifKw → Expression 0 ts e → Statement us s →
      Statement (k :: (ts ++ us)) (.ifThen ⟨k.span.start, s.span.stop⟩ e s)
  | ifElse {k l : Token} {ts us vs : List Token} {e : Expr} {s s' : Stmt} :
    k.kind = .ifKw → Expression 0 ts e → Statement us s → l.kind = .elseKw → Statement vs s' →
      Statement (k :: (ts ++ (us ++ l :: vs))) (.ifElse ⟨k.span.start, s'.span.stop⟩ e s s')
  | while {k : Token} {ts us : List Token} {e : Expr} {s : Stmt} :
    k.kind = .whileKw → Expression 0 ts e → Statement us s →
      Statement (k :: (ts ++ us)) (.while ⟨k.span.start, s.span.stop⟩ e s)
  | return {k semicolon : Token} {ts : List Token} {e : Expr} :
    k.kind = .returnKw → Expression 0 ts e → semicolon.kind = .semicolon →
      Statement (k :: (ts ++ [semicolon])) (.return ⟨k.span.start, semicolon.span.stop⟩ e)

/-- Induction over statements.  What is shown of a statement can be used of the statements of a
block. -/
theorem Statement.induct {motive : ∀ ts s, Statement ts s → Prop}
    (block : ∀ {o c : Token} {ts us ds ss} (ho : o.kind = .openCurly)
      (hds : Sequence Declaration ts ds)
      (hss : Sequence (fun us s => ∃ h : Statement us s, motive us s h) us ss)
      (hc : c.kind = .closeCurly), motive _ _ (.block ho hds (hss.imp fun _ _ ⟨h, _⟩ => h) hc))
    (assign : ∀ {x a semicolon : Token} {ts e} (hx : x.kind = .identifier)
      (ha : a.kind = .assignment) (he : Expression 0 ts e)
      (hsemicolon : semicolon.kind = .semicolon), motive _ _ (.assign hx ha he hsemicolon))
    (ifThen : ∀ {k : Token} {ts us e s} (hk : k.kind = .ifKw) (he : Expression 0 ts e)
      (hs : Statement us s), motive us s hs → motive _ _ (.ifThen hk he hs))
    (ifElse : ∀ {k l : Token} {ts us vs e s s'} (hk : k.kind = .ifKw) (he : Expression 0 ts e)
      (hs : Statement us s) (hl : l.kind = .elseKw) (hs' : Statement vs s'),
      motive us s hs → motive vs s' hs' → motive _ _ (.ifElse hk he hs hl hs'))
    («while» : ∀ {k : Token} {ts us e s} (hk : k.kind = .whileKw) (he : Expression 0 ts e)
      (hs : Statement us s), motive us s hs → motive _ _ (.while hk he hs))
    («return» : ∀ {k semicolon : Token} {ts e} (hk : k.kind = .returnKw) (he : Expression 0 ts e)
      (hsemicolon : semicolon.kind = .semicolon), motive _ _ (.return hk he hsemicolon))
    {ts : List Token} {s : Stmt} (h : Statement ts s) : motive ts s h := by
  refine @Statement.rec motive
    (fun us ss _ => Sequence (fun us s => ∃ h : Statement us s, motive us s h) us ss)
    ?_ assign ifThen ?_ «while» «return» .nil ?_ _ _ h
  · exact fun ho hds _ hc hss => block ho hds hss hc
  · exact fun hk he hs hl hs' ih ih' => ifElse hk he hs hl hs' ih ih'
  · exact fun hs _ hm hss => .cons ⟨hs, hm⟩ hss

/-- The first token of a statement begins its span. -/
theorem Statement.exists_first {ts : List Token} {s : Stmt} (h : Statement ts s) :
    ∃ t us, ts = t :: us ∧ t.span.start = s.span.start := by
  cases h <;> exact ⟨_, _, rfl, rfl⟩

/-- The last token of a statement ends its span. -/
theorem Statement.exists_last {ts : List Token} {s : Stmt} (h : Statement ts s) :
    ∃ us t, ts = us ++ [t] ∧ t.span.stop = s.span.stop := by
  induction h using Statement.induct with
  | @block o c ts us _ _ _ _ _ _ => exact ⟨o :: (ts ++ us), c, by simp, rfl⟩
  | @assign x a semicolon ts _ _ _ _ _ => exact ⟨x :: a :: ts, semicolon, by simp, rfl⟩
  | @ifThen k ts _ _ _ _ _ _ ih =>
    obtain ⟨vs, t, rfl, ht⟩ := ih
    exact ⟨k :: (ts ++ vs), t, by simp, ht⟩
  | @ifElse k l ts us _ _ _ _ _ _ _ _ _ _ ih =>
    obtain ⟨vs, t, rfl, ht⟩ := ih
    exact ⟨k :: (ts ++ (us ++ l :: vs)), t, by simp, ht⟩
  | @«while» k ts _ _ _ _ _ _ ih =>
    obtain ⟨vs, t, rfl, ht⟩ := ih
    exact ⟨k :: (ts ++ vs), t, by simp, ht⟩
  | @«return» k semicolon ts _ _ _ _ => exact ⟨k :: ts, semicolon, by simp, rfl⟩

theorem Statement.ne_nil {ts : List Token} {s : Stmt} (h : Statement ts s) : ts ≠ [] := by
  obtain ⟨us, t, rfl, -⟩ := h.exists_last
  simp

theorem Declaration.ne_nil {ts : List Token} {d : Decl} (h : Declaration ts d) : ts ≠ [] := by
  cases h
  simp

/-! ### Items -/

/-- Function definitions. -/
inductive Function : List Token → FuncDef → Prop
  | mk {k x o c : Token} {ts us : List Token} {ds : List Decl} {s : Stmt} :
    k.kind = .funcKw → x.kind = .identifier → o.kind = .openParen → Separated TypedName ts ds →
      c.kind = .closeParen → Statement us s →
        Function (k :: x :: o :: (ts ++ c :: us))
          ⟨x.text, ds, s, ⟨k.span.start, s.span.stop⟩⟩

/-- Items of a program. -/
inductive TopLevel : List Token → Item → Prop
  | function {ts : List Token} {f : FuncDef} : Function ts f → TopLevel ts (.function f)
  | global {ts : List Token} {d : Decl} : Declaration ts d → TopLevel ts (.global d)
  | main {ts : List Token} {s : Stmt} : Statement ts s → TopLevel ts (.main s)

theorem TopLevel.ne_nil {ts : List Token} {i : Item} (h : TopLevel ts i) : ts ≠ [] := by
  rcases h with ⟨⟨⟩⟩ | h | h
  · simp
  · exact h.ne_nil
  · exact h.ne_nil

end Phrase

/-! ### Which conditional an `else` belongs to -/

namespace Stmt

/-- Whether a statement ends with a conditional that has no `else`, so that one could follow. -/
def endsOpen : Stmt → Bool
  | .ifThen _ _ _ => true
  | .ifElse _ _ _ e => e.endsOpen
  | .while _ _ b => b.endsOpen
  | .decl _ _ | .block _ _ _ | .assign _ _ _ | .return _ _ => false

/-- Each `else` belongs to the nearest conditional that can take it: no branch before an `else` ends
with a conditional that has none. -/
def NearestElse (s : Stmt) : Prop :=
  ∀ span c t e, Stmt.ifElse span c t e ∈ s.nested → t.endsOpen = false

variable {span : Span} {x : String} {e : Expr} {s s' : Stmt} {ds : List Decl} {ss : List Stmt}

@[simp] theorem nearestElse_assign : (Stmt.assign span x e).NearestElse := by
  simp [NearestElse, nested]

@[simp] theorem nearestElse_return : (Stmt.return span e).NearestElse := by
  simp [NearestElse, nested]

@[simp] theorem nearestElse_block :
    (Stmt.block span ds ss).NearestElse ↔ ∀ s ∈ ss, s.NearestElse := by
  simp only [NearestElse, nested, List.mem_cons, reduceCtorEq, mem_nestedAll, false_or]
  constructor
  · intro h s hs span c t e hmem
    exact h span c t e ⟨s, hs, hmem⟩
  · rintro h span c t e ⟨s, hs, hmem⟩
    exact h s hs span c t e hmem

@[simp] theorem nearestElse_ifThen : (Stmt.ifThen span e s).NearestElse ↔ s.NearestElse := by
  simp [NearestElse, nested]

@[simp] theorem nearestElse_while : (Stmt.while span e s).NearestElse ↔ s.NearestElse := by
  simp [NearestElse, nested]

@[simp] theorem nearestElse_ifElse : (Stmt.ifElse span e s s').NearestElse ↔
    s.endsOpen = false ∧ s.NearestElse ∧ s'.NearestElse := by
  simp only [NearestElse, nested, List.mem_cons, Stmt.ifElse.injEq, List.mem_append]
  constructor
  · intro h
    exact ⟨h span e s s' (.inl ⟨rfl, rfl, rfl, rfl⟩),
      fun span c t e hmem => h span c t e (.inr (.inl hmem)),
      fun span c t e hmem => h span c t e (.inr (.inr hmem))⟩
  · rintro ⟨hopen, hs, hs'⟩ span c t e (⟨-, -, rfl, -⟩ | hmem | hmem)
    · exact hopen
    · exact hs span c t e hmem
    · exact hs' span c t e hmem

end Stmt

/-- Each `else` of an item belongs to the nearest conditional that can take it. -/
def Item.NearestElse : Item → Prop
  | .function f => f.body.NearestElse
  | .global _ => True
  | .main s => s.NearestElse

namespace Phrase

/-- Statements in which each `else` belongs to the nearest conditional that can take it. -/
def NearestStatement (ts : List Token) (s : Stmt) : Prop := Statement ts s ∧ s.NearestElse

namespace NearestStatement

variable {k l o x a c semicolon : Token} {ts us vs : List Token} {ds : List Decl} {e : Expr}
  {s s' : Stmt} {ss : List Stmt}

theorem block (ho : o.kind = .openCurly) (hds : Sequence Declaration ts ds)
    (hss : Sequence NearestStatement us ss) (hc : c.kind = .closeCurly) :
    NearestStatement (o :: (ts ++ (us ++ [c]))) (.block ⟨o.span.start, c.span.stop⟩ ds ss) :=
  ⟨.block ho hds (hss.imp fun _ _ h => h.1) hc,
    Stmt.nearestElse_block.2 (hss.forall_mem fun _ _ h => h.2)⟩

theorem assign (hx : x.kind = .identifier) (ha : a.kind = .assignment) (he : Expression 0 ts e)
    (hsemicolon : semicolon.kind = .semicolon) :
    NearestStatement (x :: a :: (ts ++ [semicolon]))
      (.assign ⟨x.span.start, semicolon.span.stop⟩ x.text e) :=
  ⟨.assign hx ha he hsemicolon, Stmt.nearestElse_assign⟩

theorem ifThen (hk : k.kind = .ifKw) (he : Expression 0 ts e) (hs : NearestStatement us s) :
    NearestStatement (k :: (ts ++ us)) (.ifThen ⟨k.span.start, s.span.stop⟩ e s) :=
  ⟨.ifThen hk he hs.1, Stmt.nearestElse_ifThen.2 hs.2⟩

/-- The branch before an `else` takes none. -/
theorem ifElse (hk : k.kind = .ifKw) (he : Expression 0 ts e) (hs : NearestStatement us s)
    (hclosed : s.endsOpen = false) (hl : l.kind = .elseKw) (hs' : NearestStatement vs s') :
    NearestStatement (k :: (ts ++ (us ++ l :: vs)))
      (.ifElse ⟨k.span.start, s'.span.stop⟩ e s s') :=
  ⟨.ifElse hk he hs.1 hl hs'.1, Stmt.nearestElse_ifElse.2 ⟨hclosed, hs.2, hs'.2⟩⟩

theorem «while» (hk : k.kind = .whileKw) (he : Expression 0 ts e) (hs : NearestStatement us s) :
    NearestStatement (k :: (ts ++ us)) (.while ⟨k.span.start, s.span.stop⟩ e s) :=
  ⟨.while hk he hs.1, Stmt.nearestElse_while.2 hs.2⟩

theorem «return» (hk : k.kind = .returnKw) (he : Expression 0 ts e)
    (hsemicolon : semicolon.kind = .semicolon) :
    NearestStatement (k :: (ts ++ [semicolon])) (.return ⟨k.span.start, semicolon.span.stop⟩ e) :=
  ⟨.return hk he hsemicolon, Stmt.nearestElse_return⟩

end NearestStatement

/-- Items in which each `else` belongs to the nearest conditional that can take it. -/
def NearestTopLevel (ts : List Token) (i : Item) : Prop := TopLevel ts i ∧ i.NearestElse

end Phrase

end SimpleLang
