import SimpleLang.Proofs.Check.Frame
import SimpleLang.Proofs.Tree

/-!
# Statements that are read declare nothing around them

The trees have room for declarations anywhere a statement may stand.  The parser reads declarations
only at the head of a block and outside of functions, so no statement that it gives, at any depth,
declares a name in the scope it stands in (`Stmt.Read.declared_eq`).
-/

namespace SimpleLang

namespace Parser

variable {α β : Type} {post : α → Prop} {post' : β → Prop}

/-- Whatever the parser gives has the property. -/
def Yields (x : Parser α) (post : α → Prop) : Prop := ∀ c a c', x c = .ok a c' → post a

namespace Yields

theorem pure {a : α} (h : post a) : Yields (Pure.pure a : Parser α) post := by
  intro c b c' hrun
  cases hrun
  exact h

theorem bind {x : Parser α} {f : α → Parser β} (hx : Yields x post)
    (hf : ∀ a, post a → Yields (f a) post') : Yields (x >>= f) post' := by
  intro c b c' hrun
  change EStateM.bind x f c = .ok b c' at hrun
  unfold EStateM.bind at hrun
  cases hxc : x c with
  | ok a c₁ =>
    rw [hxc] at hrun
    exact hf a (hx c a c₁ hxc) c₁ b c' hrun
  | error e c₁ =>
    rw [hxc] at hrun
    cases hrun

/-- What is read before does not matter. -/
theorem after {x : Parser α} {f : α → Parser β} (hf : ∀ a, Yields (f a) post') :
    Yields (x >>= f) post' := by
  have hx : Yields x fun _ => True := fun _ _ _ _ => trivial
  exact hx.bind fun a _ => hf a

theorem complain {message : String} : Yields (Parser.complain message) post :=
  .after fun _ => fun _ _ _ hrun => by cases hrun

theorem manyWithin {test : TokenKind → Bool} {item : Parser α} (h : Yields item post) (n : Nat) :
    Yields (Parser.manyWithin test item n) fun xs => ∀ x ∈ xs, post x := by
  induction n with
  | zero => exact .pure (by simp)
  | succ n ih =>
    refine .after fun kind => ?_
    split
    · exact h.bind fun x hx => ih.bind fun xs hxs => .pure (List.forall_mem_cons.2 ⟨hx, hxs⟩)
    · exact .pure (by simp)

theorem many {test : TokenKind → Bool} {item : Parser α} (h : Yields item post) :
    Yields (Parser.many test item) fun xs => ∀ x ∈ xs, post x :=
  .after fun _ => h.manyWithin _

end Yields

/-! ### Statements -/

/-- The statement and those inside it declare nothing in the scopes they stand in. -/
def DeclaresNothing (st : Stmt) : Prop := ∀ part ∈ st.nested, part.declared = []

theorem block_yields {stmt : Parser Stmt} (h : Yields stmt DeclaresNothing) :
    Yields (block stmt) DeclaresNothing := by
  refine .after fun _ => .after fun _ => h.many.bind fun ss hss => .after fun _ => .after fun _ =>
    .pure ?_
  simpa [DeclaresNothing, Stmt.nested, Stmt.mem_nestedAll, Stmt.declared] using
    fun part st hst hpart => hss st hst part hpart

theorem assign_yields (expr : Power → Parser Expr) : Yields (assign expr) DeclaresNothing :=
  .after fun _ => .after fun _ => .after fun _ => .after fun _ => .after fun _ =>
    .pure (by simp [DeclaresNothing, Stmt.nested, Stmt.declared])

theorem returned_yields (expr : Power → Parser Expr) : Yields (returned expr) DeclaresNothing :=
  .after fun _ => .after fun _ => .after fun _ => .after fun _ =>
    .pure (by simp [DeclaresNothing, Stmt.nested, Stmt.declared])

theorem DeclaresNothing.declared {st : Stmt} (h : DeclaresNothing st) : st.declared = [] :=
  h st st.mem_nested_self

theorem loop_yields (expr : Power → Parser Expr) {stmt : Parser Stmt}
    (h : Yields stmt DeclaresNothing) : Yields (loop expr stmt) DeclaresNothing := by
  refine .after fun _ => .after fun _ => h.bind fun body hbody => .after fun _ => .pure ?_
  simpa [DeclaresNothing, Stmt.nested, Stmt.declared, hbody.declared] using hbody

theorem conditional_yields (expr : Power → Parser Expr) {stmt : Parser Stmt}
    (h : Yields stmt DeclaresNothing) : Yields (conditional expr stmt) DeclaresNothing := by
  refine .after fun _ => .after fun _ => h.bind fun t ht => .after fun kind => ?_
  split
  · refine .after fun _ => h.bind fun e he => .after fun _ => .pure ?_
    simpa [DeclaresNothing, Stmt.nested, Stmt.declared, ht.declared, he.declared] using
      fun part hpart => hpart.elim (ht part) (he part)
  · refine .after fun _ => .pure ?_
    simpa [DeclaresNothing, Stmt.nested, Stmt.declared, ht.declared] using ht

theorem noStatement_yields : Yields noStatement DeclaresNothing := by
  refine .after fun kind => ?_
  split
  · exact .complain
  · exact .complain

theorem form_yields (expr : Power → Parser Expr) {stmt : Parser Stmt}
    (h : Yields stmt DeclaresNothing) (f : StmtForm) :
    Yields (form expr stmt f) DeclaresNothing := by
  cases f with
  | block => exact block_yields h
  | assign => exact assign_yields expr
  | «if» => exact conditional_yields expr h
  | «while» => exact loop_yields expr h
  | «return» => exact returned_yields expr

theorem stmtWithin_yields (g : Grammar) (n : Nat) : Yields (stmtWithin g n) DeclaresNothing := by
  induction n with
  | zero => exact noStatement_yields
  | succ n ih =>
    refine .after fun kind => ?_
    cases g.statement kind with
    | none => exact noStatement_yields
    | some f => exact form_yields (expr g) ih f

theorem stmt_yields (g : Grammar) : Yields (stmt g) DeclaresNothing :=
  .after fun _ => stmtWithin_yields g _

/-! ### Programs -/

theorem function_yields (g : Grammar) : Yields (function g) fun f => DeclaresNothing f.body :=
  .after fun _ => .after fun _ => .after fun _ => .after fun _ => (stmt_yields g).bind
    fun _ hbody => .after fun _ => .pure hbody

theorem item_yields (g : Grammar) : Yields (item g) fun i =>
    (∀ f, i.function? = some f → DeclaresNothing f.body) ∧
      ∀ st, i.main? = some st → DeclaresNothing st := by
  refine .after fun kind => ?_
  split
  · refine (function_yields g).bind fun f hf => .pure ?_
    simpa [Item.function?, Item.main?] using hf
  · split
    · exact .after fun _ => .pure (by simp [Item.function?, Item.main?])
    · refine (stmt_yields g).bind fun st hst => .pure ?_
      simpa [Item.function?, Item.main?] using hst

theorem program_yields (g : Grammar) :
    Yields (program g) fun p => ∀ st ∈ p.statements, st.declared = [] := by
  refine (item_yields g).many.bind fun items hitems => .pure fun part hpart => ?_
  obtain ⟨st, hst, hpart⟩ := Stmt.mem_nestedAll.1 hpart
  rcases List.mem_append.1 hst with hbody | hmain
  · obtain ⟨f, hf, rfl⟩ := List.mem_map.1 hbody
    obtain ⟨i, hi, hfunction⟩ := List.mem_filterMap.1 hf
    exact (hitems i hi).1 f hfunction part hpart
  · obtain ⟨i, hi, hst⟩ := List.mem_filterMap.1 hmain
    exact (hitems i hi).2 st hst part hpart

end Parser

/-- Statements that reading tokens can give, at any depth. -/
inductive Stmt.Read : Stmt → Prop
  /-- A statement was read, with whatever tables. -/
  | stmt {g : Grammar} {c c' : Cursor} {st part : Stmt} :
    Parser.stmt g c = .ok st c' → part ∈ st.nested → Read part
  /-- A program was read. -/
  | program {tokens : List Token} {file : String} {p : Program} {part : Stmt} :
    Program.ofTokens tokens file = .ok p → part ∈ p.statements → Read part

/-- A statement that was read declares no name in the scope it stands in. -/
theorem Stmt.Read.declared_eq {st : Stmt} (h : st.Read) : st.declared = [] := by
  cases h with
  | stmt hread hpart => exact Parser.stmt_yields _ _ _ _ hread _ hpart
  | @program tokens file p _ hp hpart =>
    unfold Program.ofTokens at hp
    cases hread : Program.read tokens file with
    | ok q c =>
      rw [hread] at hp
      cases hp
      exact Parser.program_yields .standard _ _ _ hread _ hpart
    | error d c =>
      rw [hread] at hp
      cases hp

/-- No main statement of a program that was read declares a name in the scope of the globals. -/
theorem Program.declared_of_ofTokens {tokens : List Token} {file : String} {p : Program}
    (h : Program.ofTokens tokens file = .ok p) : ∀ st ∈ p.main, st.declared = [] := by
  intro st hst
  refine (Stmt.Read.program h ?_).declared_eq
  exact Stmt.mem_nestedAll.2 ⟨st, List.mem_append_right _ hst, st.mem_nested_self⟩

end SimpleLang
