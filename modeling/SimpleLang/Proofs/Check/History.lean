import SimpleLang.Proofs.Check.Globals
import SimpleLang.Proofs.Check.Runs
import SimpleLang.Proofs.Text.ByteOrder

/-!
# Scopes and their history

The scopes keep what is needed to find the meaning of a name and forget how it came about.  Here
they are compared with the whole history of operations on them (`ScopeOp.Lexical`).  Of a history
one can say without any scopes how many are open (`ScopeOp.level`), and which declarations are in
force: those that were not refused and were made in a scope that is still open, so that since then
there have always been as many scopes as then (`ScopeOp.InForce`).
-/

namespace SimpleLang

/-! ### Scopes by their level -/

namespace Scopes

variable {α : Type} {scope : List (String × α)} {stack outer : List (List (String × α))} {n : Nat}
  {x : String} {a : α}

/-- The declarations of the scope that is the `n`-th from the outermost; there are none if there is
no such scope. -/
def atLevel : List (List (String × α)) → Nat → List (String × α)
  | [], _ => []
  | scope :: outer, n => if n = outer.length + 1 then scope else atLevel outer n

theorem atLevel_length : atLevel (scope :: outer) (outer.length + 1) = scope := if_pos rfl

theorem atLevel_of_ne (h : n ≠ outer.length + 1) :
    atLevel (scope :: outer) n = atLevel outer n := if_neg h

theorem atLevel_of_length_lt (h : stack.length < n) : atLevel stack n = [] := by
  induction stack with
  | nil => rfl
  | cons scope outer ih =>
    rw [List.length_cons] at h
    rw [atLevel_of_ne (by omega), ih (by omega)]

theorem le_length_of_lookup_atLevel (h : (atLevel stack n).lookup x = some a) :
    n ≤ stack.length := by
  by_contra hlt
  rw [atLevel_of_length_lt (by omega)] at h
  cases h

/-- A new scope is no different from one that is not there. -/
theorem atLevel_enter (stack : List (List (String × α))) (n : Nat) :
    atLevel ([] :: stack) n = atLevel stack n := by
  by_cases h : n = stack.length + 1
  · rw [h, atLevel_length, atLevel_of_length_lt (Nat.lt_succ_self _)]
  · rw [atLevel_of_ne h]

/-- The outermost scope is the first. -/
theorem atLevel_one (hstack : stack ≠ []) : atLevel stack 1 = stack.getLast?.getD [] := by
  induction stack with
  | nil => exact absurd rfl hstack
  | cons scope outer ih =>
    cases outer with
    | nil => rfl
    | cons scope' outer =>
      rw [atLevel_of_ne (by simp), ih (List.cons_ne_nil _ _), List.getLast?_cons_cons]

theorem mem_of_atLevel_ne_nil (h : atLevel stack n ≠ []) : atLevel stack n ∈ stack := by
  induction stack with
  | nil => exact absurd rfl h
  | cons scope outer ih =>
    by_cases hn : n = outer.length + 1
    · rw [hn, atLevel_length]
      exact List.mem_cons_self
    · rw [atLevel_of_ne hn] at h ⊢
      exact List.mem_cons_of_mem _ (ih h)

/-- A scope that does not declare a name does not count for it. -/
theorem lookup_atLevel_of_none (hscope : scope.lookup x = none) (n : Nat) :
    (atLevel (scope :: outer) n).lookup x = (atLevel outer n).lookup x := by
  by_cases hn : n = outer.length + 1
  · rw [hn, atLevel_length, atLevel_of_length_lt (Nat.lt_succ_self _), hscope]
    rfl
  · rw [atLevel_of_ne hn]

/-- The meaning of a name is what the innermost scope says that declares it. -/
theorem lookup?_eq_some_iff : (Scopes.mk stack).lookup? x = some a ↔
    ∃ n, (atLevel stack n).lookup x = some a ∧
      ∀ m b, (atLevel stack m).lookup x = some b → m ≤ n := by
  induction stack with
  | nil => simp [lookup?, atLevel]
  | cons scope outer ih =>
    cases hscope : scope.lookup x with
    | none =>
      simp only [lookup_atLevel_of_none hscope]
      rw [← ih, lookup?, lookup?, List.findSome?_cons, hscope]
    | some b =>
      have hfound : (Scopes.mk (scope :: outer)).lookup? x = some b := by
        rw [lookup?, List.findSome?_cons, hscope]
      have hhere : (atLevel (scope :: outer) (outer.length + 1)).lookup x = some b := by
        rw [atLevel_length, hscope]
      rw [hfound]
      constructor
      · rintro ⟨⟩
        exact ⟨outer.length + 1, hhere, fun m _ hm => le_length_of_lookup_atLevel hm⟩
      · rintro ⟨n, hn, hmax⟩
        have hle := le_length_of_lookup_atLevel hn
        rw [List.length_cons] at hle
        obtain rfl : n = outer.length + 1 := Nat.le_antisymm hle (hmax _ _ hhere)
        rw [← hn, hhere]

theorem lookup?_eq_none_iff : (Scopes.mk stack).lookup? x = none ↔
    ∀ n a, (atLevel stack n).lookup x ≠ some a := by
  induction stack with
  | nil => simp [lookup?, atLevel]
  | cons scope outer ih =>
    cases hscope : scope.lookup x with
    | none =>
      simp only [lookup_atLevel_of_none hscope]
      rw [← ih, lookup?, lookup?, List.findSome?_cons, hscope]
    | some b =>
      have hhere : (atLevel (scope :: outer) (outer.length + 1)).lookup x = some b := by
        rw [atLevel_length, hscope]
      rw [lookup?, List.findSome?_cons, hscope]
      refine ⟨fun h => ?_, fun h => absurd hhere (h _ b)⟩
      cases h

end Scopes

/-! ### Histories -/

/-- An operation on the declarations in force. -/
inductive ScopeOp where
  /-- Opens a scope. -/
  | enter
  /-- Closes the innermost scope. -/
  | exit
  /-- Declares a name in the innermost scope. -/
  | declare (name : String) (type : NodeId) (position : Position)
  deriving DecidableEq

namespace ScopeOp

variable {s : Session} {h part segment : List ScopeOp} {op : ScopeOp} {n : Nat} {x : String}
  {type type' : NodeId} {position : Position} {scope : List (String × NodeId)}
  {outer : List (List (String × NodeId))}

/-- The step of a check that an operation is. -/
def perform : ScopeOp → Checker Unit
  | .enter => Checker.enterScope
  | .exit => Checker.exitScope
  | .declare name type position => Checker.declare name type position

/-- The operation succeeds. -/
def Succeeds (op : ScopeOp) (s : Session) : Prop := ∃ t, op.perform s = .ok () t

/-- The session after an operation, whether or not it succeeds. -/
def after (s : Session) (op : ScopeOp) : Session :=
  match op.perform s with
  | .ok _ t => t
  | .error _ t => t

/-- The session after a history of operations, the first one first. -/
def replay (s : Session) (h : List ScopeOp) : Session := h.foldl after s

/-- The number of open scopes after a history that begins with one: one more for each that was
opened, one fewer for each that was closed. -/
def level (h : List ScopeOp) : Int := 1 + h.count .enter - h.count .exit

/-- A scope is open whenever one is closed or something is declared. -/
def Legal (h : List ScopeOp) : Prop :=
  ∀ before op, before ++ [op] <+: h → op ≠ .enter → 1 ≤ level before

/-- The first scope is never closed. -/
def Unclosed (h : List ScopeOp) : Prop := ∀ part, part <+: h → 1 ≤ level part

/-- With `n` scopes open the name was declared, successfully, and since then `n` scopes have always
been open, so that the scope of the declaration still is. -/
def InForce (s : Session) (h : List ScopeOp) (n : Nat) (name : String) (type : NodeId) : Prop :=
  ∃ before position, before ++ [.declare name type position] <+: h ∧ level before = n ∧
    Succeeds (.declare name type position) (replay s before) ∧
    ∀ part, before <+: part → part <+: h → (n : Int) ≤ level part

/-- With only one scope open the name was declared, successfully. -/
def Outermost (s : Session) (h : List ScopeOp) (name : String) (type : NodeId) : Prop :=
  ∃ before position, before ++ [.declare name type position] <+: h ∧ level before = 1 ∧
    Succeeds (.declare name type position) (replay s before)

theorem replay_append (s : Session) (h h' : List ScopeOp) :
    replay s (h ++ h') = replay (replay s h) h' := List.foldl_append

theorem replay_concat (s : Session) (h : List ScopeOp) (op : ScopeOp) :
    replay s (h ++ [op]) = after (replay s h) op := by
  rw [replay_append]
  rfl

@[simp] theorem level_enter (h : List ScopeOp) : level (h ++ [.enter]) = level h + 1 := by
  simp [level]
  omega

@[simp] theorem level_exit (h : List ScopeOp) : level (h ++ [.exit]) = level h - 1 := by
  simp [level]
  omega

@[simp] theorem level_declare (h : List ScopeOp) (name : String) (type : NodeId)
    (position : Position) : level (h ++ [.declare name type position]) = level h := by
  simp [level]

theorem legal_concat_iff : Legal (h ++ [op]) ↔ Legal h ∧ (op ≠ .enter → 1 ≤ level h) := by
  constructor
  · intro hlegal
    exact ⟨fun before op' hbefore => hlegal before op' (hbefore.trans (List.prefix_append h [op])),
      hlegal h op List.prefix_rfl⟩
  · rintro ⟨hlegal, hop⟩ before op' hbefore
    rcases List.prefix_concat_iff.1 hbefore with heq | hbefore
    · obtain ⟨rfl, hlast⟩ := List.append_inj' heq rfl
      cases hlast
      exact hop
    · exact hlegal before op' hbefore

theorem Unclosed.legal (h : Unclosed part) : Legal part :=
  fun before op hbefore _ => h before ((List.prefix_append before [op]).trans hbefore)

instance (h : List ScopeOp) : Decidable (Legal h) :=
  decidable_of_iff
    (∀ part ∈ h.inits, ∀ op ∈ part.getLast?, op ≠ .enter → 1 ≤ level part.dropLast) <| by
    constructor
    · intro hall before op hbefore
      simpa using hall (before ++ [op]) ((List.mem_inits _ _).2 hbefore) op (by simp)
    · intro hlegal part hpart op hop
      obtain ⟨before, rfl⟩ := List.getLast?_eq_some_iff.1 hop
      simpa using hlegal before op ((List.mem_inits _ _).1 hpart)

instance (h : List ScopeOp) : Decidable (Unclosed h) :=
  decidable_of_iff (∀ part ∈ h.inits, 1 ≤ level part) <| by
    simp only [List.mem_inits]
    rfl

/-! ### What an operation does -/

theorem scopes_after_enter (s : Session) : (after s .enter).scopes = s.scopes.enter := rfl

theorem scopes_after_exit (hstack : s.scopes.stack = scope :: outer) :
    (after s .exit).scopes = ⟨outer⟩ := by
  have hexit : s.scopes.exit? = some ⟨outer⟩ := by rw [Scopes.exit?, hstack]
  rw [after, perform, Checker.exitScope_of_exit hexit]

theorem after_declare_of_new (hstack : s.scopes.stack = scope :: outer)
    (hnew : scope.lookup x = none) :
    after s (.declare x type position) = { s with scopes := ⟨((x, type) :: scope) :: outer⟩ } := by
  rw [after, perform, Checker.declare_of_new hstack hnew]

theorem after_declare_of_duplicate (hstack : s.scopes.stack = scope :: outer)
    (hdup : scope.lookup x = some type') : after s (.declare x type position) = s := by
  rw [after, perform, Checker.declare_of_duplicate hstack hdup]

/-- A declaration succeeds unless the innermost scope declares the name already. -/
theorem succeeds_iff (hstack : s.scopes.stack = scope :: outer) :
    Succeeds (.declare x type position) s ↔ scope.lookup x = none := by
  cases hx : scope.lookup x with
  | none => simp [Succeeds, perform, Checker.declare_of_new hstack hx]
  | some type' => simp [Succeeds, perform, Checker.declare_of_duplicate hstack hx]

/-- Operations leave what is below the scopes that they open, and the number of scopes above it is
the level. -/
theorem replay_above (hstack : s.scopes.stack = scope :: outer) (hlegal : Legal h) :
    ∃ inner, (replay s h).scopes.stack = inner ++ outer ∧ (inner.length : Int) = level h := by
  induction h using List.reverseRecOn with
  | nil => exact ⟨[scope], hstack, rfl⟩
  | append_singleton h op ih =>
    obtain ⟨hbefore, hop⟩ := legal_concat_iff.1 hlegal
    obtain ⟨inner, hinner, hlevel⟩ := ih hbefore
    have hcons : op ≠ .enter → ∃ top rest, inner = top :: rest := fun hne =>
      List.exists_cons_of_ne_nil fun hnil => by
        have hopen := hop hne
        rw [← hlevel, hnil] at hopen
        cases hopen
    rw [replay_concat]
    cases op with
    | enter =>
      refine ⟨[] :: inner, ?_, by rw [level_enter, ← hlevel]; simp⟩
      rw [scopes_after_enter, Scopes.enter, hinner, List.cons_append]
    | exit =>
      obtain ⟨top, rest, rfl⟩ := hcons (by simp)
      refine ⟨rest, ?_, by rw [level_exit, ← hlevel]; simp⟩
      rw [scopes_after_exit hinner]
      rfl
    | declare x type position =>
      obtain ⟨top, rest, rfl⟩ := hcons (by simp)
      rw [level_declare]
      cases hx : top.lookup x with
      | none =>
        refine ⟨((x, type) :: top) :: rest, ?_, hlevel⟩
        rw [after_declare_of_new hinner hx]
        rfl
      | some type' => exact ⟨_, by rw [after_declare_of_duplicate hinner hx, hinner], hlevel⟩

theorem level_eq (hs : s.scopes = .initial) (hlegal : Legal h) :
    ((replay s h).scopes.stack.length : Int) = level h := by
  obtain ⟨inner, hinner, hlevel⟩ := replay_above (by rw [hs]; rfl) hlegal
  rw [hinner, List.append_nil, hlevel]

/-- Where something can be closed or declared, there is an innermost scope. -/
theorem exists_innermost (hs : s.scopes = .initial) (hlegal : Legal h) (hopen : 1 ≤ level h) :
    ∃ scope outer, (replay s h).scopes.stack = scope :: outer ∧
      ((outer.length + 1 : Nat) : Int) = level h := by
  have hlevel := level_eq hs hlegal
  obtain ⟨scope, outer, hstack⟩ := List.exists_cons_of_ne_nil (l := (replay s h).scopes.stack)
    fun hnil => by
      rw [← hlevel, hnil] at hopen
      cases hopen
  exact ⟨scope, outer, hstack, by rw [← hlevel, hstack, List.length_cons]⟩

/-- What a history has in force after one more operation. -/
theorem inForce_concat_iff : InForce s (h ++ [op]) n x type ↔
    (InForce s h n x type ∧ (n : Int) ≤ level (h ++ [op])) ∨
      ∃ position, op = .declare x type position ∧ level h = n ∧ op.Succeeds (replay s h) := by
  constructor
  · rintro ⟨before, position, hbefore, hlevel, hok, hopen⟩
    have hlast := hopen _ ((List.prefix_append before _).trans hbefore) List.prefix_rfl
    rcases List.prefix_concat_iff.1 hbefore with heq | hbefore
    · obtain ⟨rfl, hop⟩ := List.append_inj' heq rfl
      cases hop
      exact .inr ⟨position, rfl, hlevel, hok⟩
    · refine .inl ⟨⟨before, position, hbefore, hlevel, hok, fun part hpart hpart' => ?_⟩, hlast⟩
      exact hopen part hpart (hpart'.trans (List.prefix_append h [op]))
  · rintro (⟨⟨before, position, hbefore, hlevel, hok, hopen⟩, hlast⟩ | ⟨position, rfl, hlevel, hok⟩)
    · refine ⟨before, position, hbefore.trans (List.prefix_append h [op]), hlevel, hok,
        fun part hpart hpart' => ?_⟩
      rcases List.prefix_concat_iff.1 hpart' with rfl | hpart'
      · exact hlast
      · exact hopen part hpart hpart'
    · refine ⟨h, position, List.prefix_rfl, hlevel, hok, fun part hpart hpart' => ?_⟩
      rcases List.prefix_concat_iff.1 hpart' with rfl | hpart'
      · rw [level_declare, hlevel]
      · rw [hpart'.eq_of_length_le hpart.length_le, hlevel]

theorem InForce.le_level (hx : InForce s h n x type) : (n : Int) ≤ level h := by
  obtain ⟨before, position, hbefore, -, -, hopen⟩ := hx
  exact hopen h ((List.prefix_append before _).trans hbefore) List.prefix_rfl

/-- An operation that declares nothing can only end what is in force. -/
theorem inForce_concat_of_not (hop : ∀ position, op = .declare x type position →
    ¬ op.Succeeds (replay s h)) :
    InForce s (h ++ [op]) n x type ↔ InForce s h n x type ∧ (n : Int) ≤ level (h ++ [op]) := by
  rw [inForce_concat_iff, or_iff_left]
  rintro ⟨position, hdeclare, -, hok⟩
  exact hop position hdeclare hok

/-! ### What the scopes keep of a history -/

/-- The scopes tell what is in force: at each level what was declared there, each name once. -/
structure Tells (s : Session) (h : List ScopeOp) (now : Session) : Prop where
  /-- A scope finds a name exactly if it is in force at its level. -/
  lookup_iff : ∀ n x type,
    (Scopes.atLevel now.scopes.stack n).lookup x = some type ↔ InForce s h n x type
  /-- No scope declares a name twice. -/
  nodup : ∀ scope ∈ now.scopes.stack, (scope.map Prod.fst).Nodup

theorem tells_nil (hs : s.scopes = .initial) : Tells s [] s where
  lookup_iff n x type := by
    have hnone : Scopes.atLevel s.scopes.stack n = [] := by
      rw [hs]
      exact Scopes.atLevel_enter [] n
    rw [hnone, List.lookup_nil]
    constructor
    · intro h
      cases h
    · rintro ⟨before, position, hbefore, -⟩
      simp at hbefore
  nodup := by
    rw [hs]
    simp [Scopes.initial]

theorem Tells.enter (ht : Tells s h (replay s h)) :
    Tells s (h ++ [.enter]) (after (replay s h) .enter) := by
  refine ⟨fun n x type => ?_, ?_⟩
  · rw [scopes_after_enter, Scopes.enter, Scopes.atLevel_enter, ht.lookup_iff,
      inForce_concat_of_not (by simp), level_enter]
    exact ⟨fun hx => ⟨hx, by have := hx.le_level; omega⟩, And.left⟩
  · exact List.forall_mem_cons.2 ⟨List.nodup_nil, ht.nodup⟩

theorem Tells.exit (ht : Tells s h (replay s h))
    (hstack : (replay s h).scopes.stack = scope :: outer)
    (hlevel : ((outer.length + 1 : Nat) : Int) = level h) :
    Tells s (h ++ [.exit]) (after (replay s h) .exit) := by
  obtain ⟨hlookup, hnodup⟩ := ht
  rw [hstack] at hlookup hnodup
  refine ⟨fun n x type => ?_, ?_⟩
  · rw [scopes_after_exit hstack, inForce_concat_of_not (by simp), level_exit, ← hlookup]
    dsimp only
    by_cases hn : n = outer.length + 1
    · -- nothing is left of the scope that is closed
      rw [hn, Scopes.atLevel_of_length_lt (Nat.lt_succ_self _), List.lookup_nil]
      constructor
      · intro hx
        cases hx
      · rintro ⟨-, hle⟩
        omega
    · rw [Scopes.atLevel_of_ne hn]
      refine ⟨fun hx => ⟨hx, ?_⟩, And.left⟩
      have := Scopes.le_length_of_lookup_atLevel hx
      omega
  · rw [scopes_after_exit hstack]
    exact (List.forall_mem_cons.1 hnodup).2

theorem Tells.duplicate (ht : Tells s h (replay s h))
    (hstack : (replay s h).scopes.stack = scope :: outer) (hdup : scope.lookup x = some type') :
    Tells s (h ++ [.declare x type position])
      (after (replay s h) (.declare x type position)) := by
  rw [after_declare_of_duplicate hstack hdup]
  refine ⟨fun n y type₁ => ?_, ht.nodup⟩
  have hrefused : ¬ Succeeds (.declare x type position) (replay s h) := by
    rw [succeeds_iff hstack, hdup]
    simp
  rw [ht.lookup_iff, inForce_concat_of_not fun _ _ => hrefused, level_declare]
  exact ⟨fun hy => ⟨hy, hy.le_level⟩, And.left⟩

theorem Tells.new (ht : Tells s h (replay s h))
    (hstack : (replay s h).scopes.stack = scope :: outer)
    (hlevel : ((outer.length + 1 : Nat) : Int) = level h) (hnew : scope.lookup x = none) :
    Tells s (h ++ [.declare x type position])
      (after (replay s h) (.declare x type position)) := by
  obtain ⟨hlookup, hnodup⟩ := ht
  rw [hstack] at hlookup hnodup
  have hok : Succeeds (.declare x type position) (replay s h) := (succeeds_iff hstack).2 hnew
  rw [after_declare_of_new hstack hnew]
  refine ⟨fun n y type₁ => ?_, List.forall_mem_cons.2 ⟨?_, (List.forall_mem_cons.1 hnodup).2⟩⟩
  · dsimp only
    rw [inForce_concat_iff, level_declare, ← hlookup]
    by_cases hn : n = outer.length + 1
    · rw [hn, Scopes.atLevel_length, Scopes.atLevel_length, List.lookup_cons]
      by_cases hy : y = x
      · -- the name had no meaning in this scope before
        rw [hy, hnew]
        simp [hlevel, hok]
      · rw [show (y == x) = false by simpa using hy]
        simp [hlevel, Ne.symm hy]
    · rw [Scopes.atLevel_of_ne hn, Scopes.atLevel_of_ne hn]
      constructor
      · intro hy
        have := Scopes.le_length_of_lookup_atLevel hy
        exact .inl ⟨hy, by omega⟩
      · rintro (⟨hy, -⟩ | ⟨_, -, hlevel', -⟩)
        · exact hy
        · omega
  · exact Scopes.nodup_cons (List.forall_mem_cons.1 hnodup).1 hnew

/-- **The scopes tell what is in force**, after every history. -/
theorem tells_replay (hs : s.scopes = .initial) (hlegal : Legal h) : Tells s h (replay s h) := by
  induction h using List.reverseRecOn with
  | nil => exact tells_nil hs
  | append_singleton h op ih =>
    obtain ⟨hbefore, hop⟩ := legal_concat_iff.1 hlegal
    have ht := ih hbefore
    rw [replay_concat]
    cases op with
    | enter => exact ht.enter
    | exit =>
      obtain ⟨scope, outer, hstack, hlevel⟩ := exists_innermost hs hbefore (hop (by simp))
      exact ht.exit hstack hlevel
    | declare x type position =>
      obtain ⟨scope, outer, hstack, hlevel⟩ := exists_innermost hs hbefore (hop (by simp))
      cases hx : scope.lookup x with
      | none => exact ht.new hstack hlevel hx
      | some type' => exact ht.duplicate hstack hx

/-- In the innermost scope a name is in force exactly if that scope declares it. -/
theorem lookup_innermost_iff (ht : Tells s h (replay s h))
    (hstack : (replay s h).scopes.stack = scope :: outer)
    (hlevel : ((outer.length + 1 : Nat) : Int) = level h) :
    (∃ type', scope.lookup x = some type') ↔
      ∃ (n : Nat) (type' : NodeId), (n : Int) = level h ∧ InForce s h n x type' := by
  have hlookup := ht.lookup_iff (outer.length + 1) x
  rw [hstack, Scopes.atLevel_length] at hlookup
  simp only [hlookup]
  constructor
  · rintro ⟨type', hx⟩
    exact ⟨_, type', hlevel, hx⟩
  · rintro ⟨n, type', hn, hx⟩
    obtain rfl : n = outer.length + 1 := by omega
    exact ⟨type', hx⟩

/-- A matched opening and closing leave the scopes as they were. -/
theorem replay_segment (s : Session) (hopen : Unclosed segment) (hlevel : level segment = 1) :
    (replay s (.enter :: (segment ++ [.exit]))).scopes = s.scopes := by
  change (replay (after s .enter) (segment ++ [.exit])).scopes = s.scopes
  obtain ⟨inner, hinner, hlength⟩ := replay_above (s := after s .enter) rfl hopen.legal
  obtain ⟨scope, rfl⟩ : ∃ scope, inner = [scope] := List.length_eq_one_iff.1 (by omega)
  rw [replay_concat, scopes_after_exit hinner]
  rfl

theorem outermost_iff (hopen : Unclosed h) : InForce s h 1 x type ↔ Outermost s h x type := by
  constructor
  · rintro ⟨before, position, hbefore, hlevel, hok, -⟩
    exact ⟨before, position, hbefore, hlevel, hok⟩
  · rintro ⟨before, position, hbefore, hlevel, hok⟩
    exact ⟨before, position, hbefore, hlevel, hok, fun part _ hpart => hopen part hpart⟩

/-- The outermost scope, while it has not been closed. -/
theorem exists_outermost (hs : s.scopes = .initial) (hopen : Unclosed h) : ∃ scope,
    (replay s h).scopes.globals = Scopes.sortByName scope ∧ (scope.map Prod.fst).Nodup ∧
      ∀ name type, (name, type) ∈ scope ↔ Outermost s h name type := by
  have ht := tells_replay hs hopen.legal
  obtain ⟨top, outer, hstack, -⟩ := exists_innermost hs hopen.legal (hopen h List.prefix_rfl)
  have hne : (replay s h).scopes.stack ≠ [] := by simp [hstack]
  have hnodup : ((Scopes.atLevel (replay s h).scopes.stack 1).map Prod.fst).Nodup := by
    by_cases hnil : Scopes.atLevel (replay s h).scopes.stack 1 = []
    · simp [hnil]
    · exact ht.nodup _ (Scopes.mem_of_atLevel_ne_nil hnil)
  refine ⟨_, by rw [Scopes.globals, Scopes.atLevel_one hne], hnodup, fun name type => ?_⟩
  rw [← outermost_iff hopen, ← ht.lookup_iff, Scopes.mem_iff_lookup hnodup]

/-! ### Lexical scoping -/

/-- After the history `h`, done from the session `s`, names have their meaning by lexical
scoping. -/
structure Lexical (s : Session) (h : List ScopeOp) : Prop where
  /-- There is one scope, one more for each that was opened and one fewer for each that was
  closed. -/
  depth : ((replay s h).scopes.depth : Int) = level h
  /-- A name has the type that was declared for it in the innermost scope that declares it. -/
  found : ∀ name position type,
    Checker.lookup name position (replay s h) = .ok type (replay s h) ↔
      ∃ n, InForce s h n name type ∧ ∀ m type', InForce s h m name type' → m ≤ n
  /-- A name that no open scope declares has no meaning. -/
  undeclared : ∀ name position,
    Checker.lookup name position (replay s h) =
        .error (.rejected ⟨.undeclaredName name, position⟩) (replay s h) ↔
      ∀ n type, ¬ InForce s h n name type
  /-- A declaration is refused exactly if the innermost scope declares the name already. -/
  refused : ∀ name type position, 1 ≤ level h →
    (Checker.declare name type position (replay s h) =
        .error (.rejected ⟨.duplicateDeclaration name, position⟩) (replay s h) ↔
      ∃ (n : Nat) (type' : NodeId), (n : Int) = level h ∧ InForce s h n name type')
  /-- A declaration that is not refused succeeds. -/
  declared : ∀ name type position, 1 ≤ level h →
    (Succeeds (.declare name type position) (replay s h) ↔
      ¬ ∃ (n : Nat) (type' : NodeId), (n : Int) = level h ∧ InForce s h n name type')
  /-- A declaration that is refused makes no difference to anything that comes later. -/
  ignored : ∀ name type position later, 1 ≤ level h →
    ¬ Succeeds (.declare name type position) (replay s h) →
      replay s (h ++ .declare name type position :: later) = replay s (h ++ later)
  /-- A scope that is opened and closed again, with whatever is done in between, makes no difference
  to any name. -/
  matched : ∀ segment, Unclosed segment → level segment = 1 →
    (replay s (h ++ .enter :: (segment ++ [.exit]))).scopes = (replay s h).scopes
  /-- The declarations of the outermost scope are those that were made while it was the only one,
  and are listed by name in the order of bytes, each name once. -/
  globals : Unclosed h →
    ((replay s h).scopes.globals.Pairwise fun d e => Text.bytes d.1 < Text.bytes e.1) ∧
      ∀ name type, (name, type) ∈ (replay s h).scopes.globals ↔ Outermost s h name type
  /-- They are listed alike in whatever order they were made. -/
  reordered : ∀ s' h', s'.scopes = .initial → Unclosed h → Unclosed h' →
    (∀ name type, Outermost s h name type ↔ Outermost s' h' name type) →
      (replay s h).scopes.globals = (replay s' h').scopes.globals

/-- **Scoping is lexical over every history** of operations from a single scope without declarations
that closes nothing and declares nothing while no scope is open. -/
theorem replay_lexical (s : Session) (h : List ScopeOp) (hs : s.scopes = .initial)
    (hlegal : Legal h) : Lexical s h where
  depth := level_eq hs hlegal
  found name position type := by
    simp only [← (tells_replay hs hlegal).lookup_iff]
    rw [← Scopes.lookup?_eq_some_iff]
    cases hname : (replay s h).scopes.lookup? name with
    | none => simp [Checker.lookup_of_none hname]
    | some type' => simp [Checker.lookup_of_some hname]
  undeclared name position := by
    simp only [← (tells_replay hs hlegal).lookup_iff]
    rw [← Scopes.lookup?_eq_none_iff]
    cases hname : (replay s h).scopes.lookup? name with
    | none => simp [Checker.lookup_of_none hname]
    | some type' => simp [Checker.lookup_of_some hname]
  refused name type position hopen := by
    obtain ⟨scope, outer, hstack, hlevel⟩ := exists_innermost hs hlegal hopen
    rw [← lookup_innermost_iff (tells_replay hs hlegal) hstack hlevel]
    cases hname : scope.lookup name with
    | none => simp [Checker.declare_of_new hstack hname]
    | some type' => simp [Checker.declare_of_duplicate hstack hname]
  declared name type position hopen := by
    obtain ⟨scope, outer, hstack, hlevel⟩ := exists_innermost hs hlegal hopen
    rw [← lookup_innermost_iff (tells_replay hs hlegal) hstack hlevel, succeeds_iff hstack]
    cases scope.lookup name <;> simp
  ignored name type position later hopen hrefused := by
    obtain ⟨scope, outer, hstack, -⟩ := exists_innermost hs hlegal hopen
    rw [succeeds_iff hstack] at hrefused
    obtain ⟨type', hname⟩ := Option.ne_none_iff_exists'.1 hrefused
    have hsame : after (replay s h) (.declare name type position) = replay s h :=
      after_declare_of_duplicate hstack hname
    rw [List.append_cons, replay_append, replay_concat, hsame, replay_append]
  matched segment hopen hlevel := by
    rw [replay_append, replay_segment _ hopen hlevel]
  globals hopen := by
    obtain ⟨scope, hglobals, hnodup, hmem⟩ := exists_outermost hs hopen
    rw [hglobals]
    refine ⟨(Scopes.sortByName_strict hnodup).imp Text.bytes_lt_bytes, fun name type => ?_⟩
    rw [(Scopes.sortByName_perm scope).mem_iff, hmem]
  reordered s' h' hs' hopen hopen' hsame := by
    obtain ⟨scope, hglobals, hnodup, hmem⟩ := exists_outermost hs hopen
    obtain ⟨scope', hglobals', hnodup', hmem'⟩ := exists_outermost hs' hopen'
    rw [hglobals, hglobals']
    refine Scopes.sortByName_eq_of_mem_iff hnodup hnodup' fun d => ?_
    rw [hmem, hmem', hsame]

/-- A name that is declared again in an inner scope and there once more, and another one after
it. -/
def redeclarations : List ScopeOp :=
  [.declare "b" 0 ⟨0, ""⟩, .enter, .declare "b" 1 ⟨1, ""⟩, .declare "b" 0 ⟨2, ""⟩, .exit,
    .declare "a" 1 ⟨3, ""⟩]

theorem replay_lexical_redeclarations :
    Legal redeclarations ∧ Unclosed redeclarations ∧ Lexical Session.initial redeclarations ∧
      (replay Session.initial redeclarations).scopes.globals = [("a", 1), ("b", 0)] :=
  ⟨by decide, by decide, replay_lexical Session.initial redeclarations rfl (by decide), rfl⟩

end ScopeOp

end SimpleLang
