import SimpleLang.Tree.Outline

/-!
# The store of types

Every type that a check reasons about is a node of a store and is known by its number.  A type
variable is a node that may be bound to another; following bindings leads to the node that
represents it (`TypeStore.resolve`).  Asking for the representative with `TypeStore.find` also
shortens the way: every variable passed is then bound to the representative directly.

Nodes 0 and 1 are the two constants.  Where bindings or components could run in a circle, the
number of nodes bounds how far they are followed, which is as far as they go in a store without
circles.

What a node stands for is a term over the constants and the unbound variables (`TypeStore.term`).  A
type is shown by the text of its term.
-/

namespace SimpleLang

/-- The number of a node. -/
abbrev NodeId := Nat

/-- A node of the store. -/
inductive Node where
  /-- A type that can be written. -/
  | constant (type : BaseType)
  /-- A variable with its own number, and the node it is bound to, if any. -/
  | var (id : Nat) (binding : Option NodeId)
  /-- A function type. -/
  | function (result : NodeId) (params : List NodeId)
  deriving DecidableEq, Repr

namespace Node

/-- The outline of a node's number. -/
def idOutline (i : NodeId) : Outline := .tuple "TypeId" [.number i]

/-- The outline of a node. -/
def outline : Node → Outline
  | .constant t => .tuple "Constant" [t.outline]
  | .var id binding =>
    .record "Variable" [("id", .number id), ("binding", .option (binding.map idOutline))]
  | .function result params =>
    .record "Function"
      [("return_type", idOutline result), ("params", .list (params.map idOutline))]

end Node

/-- A store of types. -/
structure TypeStore where
  /-- The nodes, by number. -/
  nodes : Array Node
  /-- How many variables there are. -/
  varCount : Nat

namespace TypeStore

/-- The store with nothing but the constants. -/
def initial : TypeStore := ⟨#[.constant .int, .constant .bool], 0⟩

/-- The node of a constant. -/
def constant : BaseType → NodeId
  | .int => 0
  | .bool => 1

/-- The number of nodes. -/
def size (s : TypeStore) : Nat := s.nodes.size

/-- The node with a number. -/
def node? (s : TypeStore) (i : NodeId) : Option Node := s.nodes[i]?

/-- Puts another node in the place of one. -/
def set (s : TypeStore) (i : NodeId) (node : Node) : TypeStore :=
  { s with nodes := s.nodes.setIfInBounds i node }

/-- Adds an unbound variable. -/
def fresh (s : TypeStore) : NodeId × TypeStore :=
  (s.size, ⟨s.nodes.push (.var s.varCount none), s.varCount + 1⟩)

/-- Adds a function type. -/
def function (s : TypeStore) (result : NodeId) (params : List NodeId) : NodeId × TypeStore :=
  (s.size, { s with nodes := s.nodes.push (.function result params) })

/-- The type of a declaration: the written one, or else a new variable. -/
def declared (s : TypeStore) : Option BaseType → NodeId × TypeStore
  | some t => (constant t, s)
  | none => s.fresh

/-- Whether a node is a variable that is not bound. -/
def isUnbound (s : TypeStore) (i : NodeId) : Bool :=
  match s.node? i with
  | some (.var _ none) => true
  | _ => false

/-- The node at the end of at most `n` bindings. -/
def resolveWithin (s : TypeStore) : Nat → NodeId → NodeId
  | 0, i => i
  | n + 1, i =>
    match s.node? i with
    | some (.var _ (some next)) => resolveWithin s n next
    | _ => i

/-- The node that represents a node: the one that its bindings lead to. -/
def resolve (s : TypeStore) (i : NodeId) : NodeId := s.resolveWithin s.size i

/-- Binds the variables on the way from a node to `root`, at most `n` of them, to `root`. -/
def compressWithin (root : NodeId) : Nat → NodeId → TypeStore → TypeStore
  | 0, _, s => s
  | n + 1, i, s =>
    if i = root then s
    else match s.node? i with
      | some (.var id (some next)) =>
        compressWithin root n next (s.set i (.var id (some root)))
      | _ => s

/-- The representative of a node.  The variables on the way to it are bound to it directly. -/
def find (s : TypeStore) (i : NodeId) : NodeId × TypeStore :=
  (s.resolve i, compressWithin (s.resolve i) s.size i s)

/-- Whether the representative `root` appears in a type, looking at most `n` levels deep. -/
def occursWithin (s : TypeStore) (root : NodeId) : Nat → NodeId → Bool
  | 0, _ => false
  | n + 1, i =>
    s.resolve i == root ||
      match s.node? (s.resolve i) with
      | some (.function result params) =>
        occursWithin s root n result || params.any fun p => occursWithin s root n p
      | _ => false

/-- Whether a variable appears in a type. -/
def occurs (s : TypeStore) (var type : NodeId) : Bool :=
  s.occursWithin (s.resolve var) s.size type

/-- The outline of a store. -/
def outline (s : TypeStore) : Outline :=
  .record "TypeArena"
    [("nodes", .list (s.nodes.toList.map Node.outline)), ("next_var_id", .number s.varCount),
      ("int", Node.idOutline (constant .int)), ("bool", Node.idOutline (constant .bool))]

end TypeStore

/-! ### Types as terms -/

/-- Type terms. -/
inductive Ty where
  /-- A type that can be written. -/
  | base (type : BaseType)
  /-- A variable. -/
  | var (id : Nat)
  /-- A function type. -/
  | fn (params : List Ty) (result : Ty)
  deriving Repr

namespace Ty

mutual

/-- A type as it is shown: `int`, `t3`, `(int, t0) -> bool`. -/
def text : Ty → String
  | .base t => t.text
  | .var id => "t" ++ toString id
  | .fn params result => "(" ++ texts params ++ ") -> " ++ result.text

/-- Types divided by commas. -/
def texts : List Ty → String
  | [] => ""
  | [t] => t.text
  | t :: ts => t.text ++ ", " ++ texts ts

end

end Ty

namespace TypeStore

/-- The term of a node, at most `n` levels deep. -/
def termWithin (s : TypeStore) : Nat → NodeId → Ty
  | 0, i => .var i
  | n + 1, i =>
    match s.node? i with
    | some (.constant t) => .base t
    | some (.var _ (some next)) => termWithin s n next
    | some (.var id none) => .var id
    | some (.function result params) =>
      .fn (params.map fun p => termWithin s n p) (termWithin s n result)
    | none => .var i

/-- The term that a node stands for. -/
def term (s : TypeStore) (i : NodeId) : Ty := s.termWithin s.size i

/-- A node's type as it is shown. -/
def display (s : TypeStore) (i : NodeId) : String := (s.term i).text

end TypeStore

end SimpleLang
