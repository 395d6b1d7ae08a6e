import SimpleLang.Parse.Program

/-!
# Walks through trees

The statements that stand anywhere in a program (`Program.statements`), and a program with its spans
moved elsewhere (`Program.relocate`).  A relocation moves the starts of spans by one map and their
ends by another; nothing else of a tree changes.
-/

namespace SimpleLang

/-! ### Statements inside statements -/

namespace Stmt

mutual

/-- A statement and the statements inside it, at any depth. -/
def nested : Stmt → List Stmt
  | .decl span d => [.decl span d]
  | .block span ds ss => .block span ds ss :: nestedAll ss
  | .assign span target value => [.assign span target value]
  | .ifThen span c t => .ifThen span c t :: t.nested
  | .ifElse span c t e => .ifElse span c t e :: (t.nested ++ e.nested)
  | .while span c b => .while span c b :: b.nested
  | .return span value => [.return span value]

/-- Some statements and the statements inside them. -/
def nestedAll : List Stmt → List Stmt
  | [] => []
  | s :: ss => s.nested ++ nestedAll ss

end

theorem mem_nestedAll {part : Stmt} {ss : List Stmt} :
    part ∈ nestedAll ss ↔ ∃ s ∈ ss, part ∈ s.nested := by
  induction ss with
  | nil => simp [nestedAll]
  | cons s ss ih => simp [nestedAll, ih]

theorem mem_nested_self (s : Stmt) : s ∈ s.nested := by
  cases s <;> simp [nested]

end Stmt

/-- The statements that stand anywhere in a program. -/
def Program.statements (p : Program) : List Stmt :=
  Stmt.nestedAll (p.functions.map FuncDef.body ++ p.main)

/-! ### Trees elsewhere -/

/-- Where positions go: the starts of spans by one map, their ends by another. -/
structure Relocation where
  /-- Where starts go. -/
  start : Position → Position
  /-- Where ends go. -/
  stop : Position → Position

variable (ρ : Relocation)

/-- A span elsewhere. -/
def Span.relocate (s : Span) : Span := ⟨ρ.start s.start, ρ.stop s.stop⟩

@[simp] theorem Span.relocate_start (s : Span) : (s.relocate ρ).start = ρ.start s.start := rfl

/-- A token elsewhere. -/
def Token.relocate (t : Token) : Token := { t with span := t.span.relocate ρ }

@[simp] theorem Token.relocate_kind (t : Token) : (t.relocate ρ).kind = t.kind := rfl

/-- A diagnostic elsewhere.  Diagnostics are reported where something starts. -/
def Diagnostic.relocate (d : Diagnostic) : Diagnostic := { d with position := ρ.start d.position }

namespace Expr

mutual

/-- An expression elsewhere. -/
def relocate : Expr → Expr
  | .name span x => .name (span.relocate ρ) x
  | .int span n => .int (span.relocate ρ) n
  | .bool span b => .bool (span.relocate ρ) b
  | .binary span l op r => .binary (span.relocate ρ) l.relocate op r.relocate
  | .call span callee es => .call (span.relocate ρ) callee (relocateAll es)

/-- Expressions elsewhere. -/
def relocateAll : List Expr → List Expr
  | [] => []
  | e :: es => e.relocate :: relocateAll es

end

variable {ρ}

theorem relocateAll_eq_map (es : List Expr) : relocateAll ρ es = es.map (relocate ρ) := by
  induction es with
  | nil => rfl
  | cons e es ih => simp [relocateAll, ih]

@[simp] theorem relocate_span (e : Expr) : (e.relocate ρ).span = e.span.relocate ρ := by
  cases e <;> rfl

end Expr

/-- A declaration elsewhere. -/
def Decl.relocate (d : Decl) : Decl := { d with span := d.span.relocate ρ }

namespace Stmt

mutual

/-- A statement elsewhere. -/
def relocate : Stmt → Stmt
  | .decl span d => .decl (span.relocate ρ) (d.relocate ρ)
  | .block span ds ss => .block (span.relocate ρ) (ds.map (Decl.relocate ρ)) (relocateAll ss)
  | .assign span x e => .assign (span.relocate ρ) x (e.relocate ρ)
  | .ifThen span c t => .ifThen (span.relocate ρ) (c.relocate ρ) t.relocate
  | .ifElse span c t e => .ifElse (span.relocate ρ) (c.relocate ρ) t.relocate e.relocate
  | .while span c b => .while (span.relocate ρ) (c.relocate ρ) b.relocate
  | .return span e => .return (span.relocate ρ) (e.relocate ρ)

/-- Statements elsewhere. -/
def relocateAll : List Stmt → List Stmt
  | [] => []
  | s :: ss => s.relocate :: relocateAll ss

end

variable {ρ}

theorem relocateAll_eq_map (ss : List Stmt) : relocateAll ρ ss = ss.map (relocate ρ) := by
  induction ss with
  | nil => rfl
  | cons s ss ih => simp [relocateAll, ih]

end Stmt

/-- A function definition elsewhere. -/
def FuncDef.relocate (f : FuncDef) : FuncDef :=
  ⟨f.name, f.params.map (Decl.relocate ρ), f.body.relocate ρ, f.span.relocate ρ⟩

/-- An item elsewhere. -/
def Item.relocate : Item → Item
  | .function f => .function (f.relocate ρ)
  | .global d => .global (d.relocate ρ)
  | .main s => .main (s.relocate ρ)

/-- A program elsewhere. -/
def Program.relocate (p : Program) : Program where
  functions := p.functions.map (FuncDef.relocate ρ)
  globals := p.globals.map (Decl.relocate ρ)
  main := p.main.map (Stmt.relocate ρ)

theorem Program.ofItems_relocate (items : List Item) :
    ofItems (items.map (Item.relocate ρ)) = (ofItems items).relocate ρ := by
  have hf : Item.function? ∘ Item.relocate ρ =
      Option.map (FuncDef.relocate ρ) ∘ Item.function? := by
    funext i
    cases i <;> rfl
  have hg : Item.global? ∘ Item.relocate ρ = Option.map (Decl.relocate ρ) ∘ Item.global? := by
    funext i
    cases i <;> rfl
  have hm : Item.main? ∘ Item.relocate ρ = Option.map (Stmt.relocate ρ) ∘ Item.main? := by
    funext i
    cases i <;> rfl
  simp only [ofItems, relocate, List.filterMap_map, List.map_filterMap, hf, hg, hm]
  rfl

end SimpleLang
