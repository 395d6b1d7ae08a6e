import SimpleLang.Proofs.Excerpts
import SimpleLang.Proofs.Parse.Brackets
import Mathlib.Logic.Relation

/-!
# The parts of a program

Functions, declarations, statements and expressions are the parts of a program, and each has its own
parts inside it, in the order in which they are written (`Part.children`).

The parts inside a part are spelled by stretches of its tokens, one after another
(`Phrase.Spells.arranged`), and so is every part of a program, at any depth
(`Phrase.Sequence.exists_spells`).  The tokens at the span of a part are a stretch of those that
spell it (`Phrase.Spells.exists_spanned`): all of them, but for the brackets around an expression or
around its first or last operand.
-/

namespace SimpleLang

/-! ### Parts -/

/-- A part of a program. -/
inductive Part where
  /-- A function definition. -/
  | function (f : FuncDef)
  /-- A declaration of a variable or of a parameter. -/
  | declaration (d : Decl)
  /-- A statement. -/
  | statement (s : Stmt)
  /-- An expression. -/
  | expression (e : Expr)

/-- The operands or arguments of an expression. -/
def Expr.parts : Expr → List Part
  | .name _ _ | .int _ _ | .bool _ _ => []
  | .binary _ l _ r => [.expression l, .expression r]
  | .call _ _ es => es.map .expression

/-- What a statement is made of: declarations before statements, a condition before what it is
for. -/
def Stmt.parts : Stmt → List Part
  | .decl _ d => [.declaration d]
  | .block _ ds ss => ds.map .declaration ++ ss.map .statement
  | .assign _ _ e | .return _ e => [.expression e]
  | .ifThen _ c t => [.expression c, .statement t]
  | .ifElse _ c t e => [.expression c, .statement t, .statement e]
  | .while _ c b => [.expression c, .statement b]

namespace Part

/-- The span of a part. -/
def span : Part → Span
  | .function f => f.span
  | .declaration d => d.span
  | .statement s => s.span
  | .expression e => e.span

/-- The parts right inside a part, in the order in which they are written. -/
def children : Part → List Part
  | .function f => f.params.map .declaration ++ [.statement f.body]
  | .declaration _ => []
  | .statement s => s.parts
  | .expression e => e.parts

/-- A part and the parts inside it, at any depth. -/
def Holds : Part → Part → Prop := Relation.ReflTransGen fun outer inner => inner ∈ outer.children

end Part

/-- The part that an item is. -/
def Item.part : Item → Part
  | .function f => .function f
  | .global d => .declaration d
  | .main s => .statement s

namespace Program

/-- The items of a program: functions, then globals, then main statements. -/
def parts (p : Program) : List Part :=
  p.functions.map .function ++ p.globals.map .declaration ++ p.main.map .statement

/-- The part stands somewhere in the program. -/
def Contains (p : Program) (part : Part) : Prop := ∃ top ∈ p.parts, top.Holds part

/-- Sorting the items keeps all of them. -/
theorem parts_ofItems_perm (items : List Item) :
    (ofItems items).parts.Perm (items.map Item.part) := by
  induction items with
  | nil => exact .nil
  | cons i items ih =>
    refine .trans ?_ (ih.cons i.part)
    cases i with
    | function f => exact .rfl
    | global d =>
      simp only [parts, ofItems, List.append_assoc]
      exact List.perm_middle
    | main s =>
      simp only [parts, ofItems]
      exact List.perm_middle

end Program

namespace Phrase

variable {α : Type} {P : List Token → α → Prop} {f : α → Part} {n : Nat} {ts us gap : List Token}
  {t : Token} {a : α} {as : List α} {e : Expr} {s : Stmt} {d : Decl} {func : FuncDef} {i : Item}
  {items : List Item} {part : Part} {parts parts' : List Part}

/-- The tokens spell a part of a program.  A declaration is spelled without its semicolon. -/
def Spells (ts : List Token) : Part → Prop
  | .function f => Function ts f
  | .declaration d => TypedName ts d
  | .statement s => Statement ts s
  | .expression e => Expression 0 ts e

/-! ### Parts one after another -/

/-- Parts are spelled one after another, perhaps with other tokens around them. -/
inductive Arranged : List Token → List Part → Prop
  | nil {ts : List Token} : Arranged ts []
  | cons {gap us ts : List Token} {part : Part} {parts : List Part} :
    Spells us part → Arranged ts parts → Arranged (gap ++ (us ++ ts)) (part :: parts)

namespace Arranged

theorem single (h : Spells ts part) : Arranged ts [part] := by
  simpa using @Arranged.cons [] ts [] part [] h .nil

theorem declaration (h : TypedName ts d) : Arranged ts [.declaration d] := single h

theorem statement (h : Statement ts s) : Arranged ts [.statement s] := single h

theorem expression (h : Expression n ts e) : Arranged ts [.expression e] :=
  single (h.loosen (Nat.zero_le n))

/-- Tokens in front do not matter. -/
theorem after (h : Arranged ts parts) (gap : List Token) : Arranged (gap ++ ts) parts := by
  cases h with
  | nil => exact .nil
  | cons hpart hparts =>
    rw [← List.append_assoc]
    exact .cons hpart hparts

theorem append (h : Arranged ts parts) (h' : Arranged us parts') :
    Arranged (ts ++ us) (parts ++ parts') := by
  induction h with
  | nil => exact h'.after _
  | cons hpart _ ih =>
    rw [List.append_assoc, List.append_assoc]
    exact .cons hpart ih

/-- Tokens behind do not matter. -/
theorem before (h : Arranged ts parts) (us : List Token) : Arranged (ts ++ us) parts := by
  simpa using h.append (.nil : Arranged us [])

theorem of_sequence (h : Sequence P ts as) (hP : ∀ ts a, P ts a → Arranged ts [f a]) :
    Arranged ts (as.map f) := by
  induction h with
  | nil => exact .nil
  | cons ha _ ih => exact (hP _ _ ha).append ih

theorem of_separated (h : Separated P ts as) (hP : ∀ ts a, P ts a → Spells ts (f a)) :
    Arranged ts (as.map f) := by
  cases h with
  | none => exact .nil
  | some ha has =>
    refine (single (hP _ _ ha)).append (of_sequence has fun _ _ h => ?_)
    cases h with
    | @mk comma _ _ _ ha => exact (single (hP _ _ ha)).after [comma]

/-- Each part is spelled by a stretch of the tokens. -/
theorem exists_spells (h : Arranged ts parts) (hpart : part ∈ parts) :
    ∃ us, us <:+: ts ∧ Spells us part := by
  induction h with
  | nil => cases hpart
  | @cons gap us ts _ _ hfirst _ ih =>
    rcases List.mem_cons.1 hpart with rfl | hpart
    · exact ⟨us, ⟨gap, ts, by simp⟩, hfirst⟩
    · obtain ⟨vs, hvs, hspells⟩ := ih hpart
      exact ⟨vs, hvs.trans ⟨gap ++ us, [], by simp⟩, hspells⟩

end Arranged

theorem Declaration.arranged (h : Declaration ts d) : Arranged ts [.declaration d] := by
  cases h with
  | mk hd _ => exact (Arranged.declaration hd).before _

theorem Expression.arranged (h : Expression n ts e) : Arranged ts e.parts := by
  induction h using Expression.induct with
  | tighter _ ih => exact ih
  | @binary _ _ _ t _ _ _ _ hl _ hr _ _ =>
    exact (Arranged.expression hl).append ((Arranged.expression hr).after [t])
  | @group o c _ _ _ _ _ ih => exact (ih.before [c]).after [o]
  | @call _ _ _ o c _ _ _ hes _ =>
    have hargs := Arranged.of_separated hes (f := .expression) fun _ _ ⟨he, _⟩ => he
    exact ((hargs.before [c]).after [o]).after _
  | _ => exact .nil

theorem Statement.arranged (h : Statement ts s) : Arranged ts s.parts := by
  cases h with
  | @block o c _ _ _ _ _ hds hss _ =>
    have hds := Arranged.of_sequence hds (f := .declaration) fun _ _ h => h.arranged
    have hss := Arranged.of_sequence hss (f := .statement) fun _ _ h => .statement h
    exact (hds.append (hss.before [c])).after [o]
  | @assign x a semicolon _ _ _ _ he _ =>
    exact ((Arranged.expression he).before [semicolon]).after [x, a]
  | @ifThen k _ _ _ _ _ he hs =>
    exact ((Arranged.expression he).append (.statement hs)).after [k]
  | @ifElse k l _ _ _ _ _ _ _ he hs _ hs' =>
    have hbranches := (Arranged.statement hs).append ((Arranged.statement hs').after [l])
    exact ((Arranged.expression he).append hbranches).after [k]
  | @«while» k _ _ _ _ _ he hs =>
    exact ((Arranged.expression he).append (.statement hs)).after [k]
  | @«return» k semicolon _ _ _ he _ =>
    exact ((Arranged.expression he).before [semicolon]).after [k]

/-- The parts inside a part are spelled one after another by its tokens. -/
theorem Spells.arranged (h : Spells ts part) : Arranged ts part.children := by
  cases part with
  | function f =>
    cases h with
    | @mk k x o c _ _ _ _ _ _ _ hds _ hs =>
      have hds := Arranged.of_separated hds (f := .declaration) fun _ _ h => h
      exact (hds.append ((Arranged.statement hs).after [c])).after [k, x, o]
  | declaration d => exact .nil
  | statement s => exact Statement.arranged h
  | expression e => exact Expression.arranged h

/-- Every part inside a part, at any depth, is spelled by a stretch of its tokens. -/
theorem Spells.exists_of_holds {inner : Part} (h : Spells ts part) (hinner : part.Holds inner) :
    ∃ us, us <:+: ts ∧ Spells us inner := by
  induction hinner with
  | refl => exact ⟨ts, List.infix_rfl, h⟩
  | tail _ hchild ih =>
    obtain ⟨us, hus, hspells⟩ := ih
    obtain ⟨vs, hvs, hchild⟩ := hspells.arranged.exists_spells hchild
    exact ⟨vs, hvs.trans hus, hchild⟩

theorem TopLevel.arranged (h : TopLevel ts i) : Arranged ts [i.part] := by
  cases h with
  | function hf => exact .single hf
  | global hd => exact hd.arranged
  | main hs => exact .statement hs

/-- The items of a program are spelled one after another. -/
theorem Sequence.arranged (h : Sequence NearestTopLevel ts items) :
    Arranged ts (items.map Item.part) :=
  .of_sequence h fun _ _ hi => hi.1.arranged

/-- Every part of a program is spelled by a stretch of its tokens. -/
theorem Sequence.exists_spells (h : Sequence NearestTopLevel ts items)
    (hpart : (Program.ofItems items).Contains part) : ∃ us, us <:+: ts ∧ Spells us part := by
  obtain ⟨top, htop, hholds⟩ := hpart
  obtain ⟨us, hus, hspells⟩ :=
    h.arranged.exists_spells ((Program.parts_ofItems_perm items).mem_iff.1 htop)
  obtain ⟨vs, hvs, hspells⟩ := hspells.exists_of_holds hholds
  exact ⟨vs, hvs.trans hus, hspells⟩

/-! ### The tokens at a span -/

/-- An expression takes up its span, when the brackets around it and around its first and its last
operand are left out. -/
theorem Expression.exists_spanned (h : Expression n ts e) :
    ∃ us, us <:+: ts ∧ Token.Spanned e.span us := by
  obtain ⟨us, around, hcore⟩ := h.exists_core
  obtain ⟨os, cs, rfl, -⟩ := hcore.enclosed
  exact ⟨us, ⟨os, cs, by simp⟩, hcore.spanned⟩

theorem TypedName.spanned (h : TypedName ts d) : Token.Spanned d.span ts := by
  cases h with
  | @mk k x _ _ _ => exact ⟨⟨k, [x], rfl, rfl⟩, ⟨[k], x, rfl, rfl⟩⟩

/-- The tokens at the span of a part are a stretch of those that spell it. -/
theorem Spells.exists_spanned (h : Spells ts part) :
    ∃ us, us <:+: ts ∧ Token.Spanned part.span us := by
  cases part with
  | function f => exact ⟨ts, List.infix_rfl, Function.spanned h⟩
  | declaration d => exact ⟨ts, List.infix_rfl, TypedName.spanned h⟩
  | statement s => exact ⟨ts, List.infix_rfl, Statement.spanned h⟩
  | expression e => exact Expression.exists_spanned h

end Phrase

end SimpleLang
