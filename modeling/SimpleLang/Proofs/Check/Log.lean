import SimpleLang.Proofs.Check.Moves
import SimpleLang.Proofs.Types.Instances
import SimpleLang.Proofs.Types.Ways

/-!
# What the log tells

The log of a check tells its whole story (`Program.check_logged`).  Scopes are opened and closed in
pairs, at the depths that are logged.  Every binding is announced by the line before it, no
variable is bound twice, and who only knows the bindings that were logged finds the same
representatives as the store has in the end, although the store has bound variables anew since to
shorten the ways.

Each is kept by every move of a check, and so holds after every check, wherever it ended.

## Main definitions

* `Event.bindings log` : the bindings that a log tells of, variables by their numbers.
* `TypeStore.Told bs s i j` : node `i` is a variable that is bound to `j` according to `bs`.
* `TypeStore.Recorded bs s` : the bindings `bs` are those of the store.
* `Session.Logged s` : the log of a session tells its whole story.
-/

namespace SimpleLang

namespace Event

variable {log : Array Event} {e : Event}

/-! ### Bindings and depths in a log -/

/-- The binding that an event tells of. -/
def binding? : Event → Option (Nat × NodeId)
  | .bound id target => some (id, target)
  | _ => none

/-- The bindings that a log tells of. -/
def bindings (log : Array Event) : List (Nat × NodeId) := log.toList.filterMap binding?

@[simp] theorem bindings_push (log : Array Event) (e : Event) :
    bindings (log.push e) = bindings log ++ e.binding?.toList := by
  rw [bindings, Array.toList_push, List.filterMap_append]
  cases h : e.binding? <;> simp [bindings, h]

/-- The depth after an event, if the event goes with the depth before it: scopes are opened one
deeper, and closed one less deep but never the outermost. -/
def nextDepth (depth : Nat) : Event → Option Nat
  | .scopeEntered d => if d = depth + 1 then some d else none
  | .scopeExited d => if d + 1 = depth ∧ 0 < d then some d else none
  | _ => some depth

/-- The depth at the end of a log that begins with one open scope, if its scopes fit together. -/
def depthAfter (log : Array Event) : Option Nat := log.toList.foldlM nextDepth 1

theorem depthAfter_push (log : Array Event) (e : Event) :
    depthAfter (log.push e) = (depthAfter log).bind (nextDepth · e) := by
  rw [depthAfter, Array.toList_push, List.foldlM_append]
  simp [depthAfter]

section Plain

variable (he : e.isPlain = true)

include he

theorem binding?_of_isPlain : e.binding? = none := by
  cases e <;> first | rfl | cases he

theorem ne_unified_of_isPlain (shown target : String) : e ≠ .unified shown target := by
  rintro rfl
  cases he

theorem nextDepth_of_isPlain (depth : Nat) : e.nextDepth depth = some depth := by
  cases e <;> first | rfl | cases he

end Plain

/-- Every binding is announced directly before it, and whatever is announced is done: the line
`unify: t3 := int` comes before `bind t3 := node 0`. -/
structure Paired (log : Array Event) : Prop where
  /-- Directly after the announcement comes the binding of the variable. -/
  bound_after : ∀ (k : Nat) (shown target : String), log[k]? = some (.unified shown target) →
    ∃ id n, shown = "t" ++ toString id ∧ log[k + 1]? = some (.bound id n)
  /-- Directly before the binding of a variable comes its announcement. -/
  unified_before : ∀ (k id : Nat) (n : NodeId), log[k]? = some (.bound id n) →
    ∃ j target, k = j + 1 ∧ log[j]? = some (.unified ("t" ++ toString id) target)

theorem paired_empty : Paired #[] := ⟨by simp, by simp⟩

namespace Paired

theorem push (h : Paired log) (hu : ∀ shown target, e ≠ .unified shown target)
    (hb : e.binding? = none) : Paired (log.push e) where
  bound_after k shown target hk := by
    rw [Array.getElem?_push] at hk
    split at hk
    · exact absurd (Option.some.inj hk) (hu shown target)
    · obtain ⟨id, n, hshown, hnext⟩ := h.bound_after k shown target hk
      have hlt := (Array.getElem?_eq_some_iff.1 hnext).1
      exact ⟨id, n, hshown, by rw [Array.getElem?_push, if_neg hlt.ne, hnext]⟩
  unified_before k id n hk := by
    rw [Array.getElem?_push] at hk
    split at hk
    · cases hk
      cases hb
    · obtain ⟨j, target, rfl, hj⟩ := h.unified_before k id n hk
      have hlt := (Array.getElem?_eq_some_iff.1 hj).1
      exact ⟨j, target, rfl, by rw [Array.getElem?_push, if_neg hlt.ne, hj]⟩

/-- A binding and its announcement together. -/
theorem push_both (h : Paired log) (id : Nat) (n : NodeId) (target : String) :
    Paired ((log.push (.unified ("t" ++ toString id) target)).push (.bound id n)) where
  bound_after k shown target' hk := by
    simp only [Array.getElem?_push, Array.size_push] at hk ⊢
    by_cases hlast : k = log.size + 1
    · rw [if_pos hlast] at hk
      cases hk
    rw [if_neg hlast] at hk
    by_cases hnew : k = log.size
    · rw [if_pos hnew] at hk
      cases hk
      exact ⟨id, n, rfl, by rw [if_pos (by omega)]⟩
    · rw [if_neg hnew] at hk
      obtain ⟨id', n', hshown, hnext⟩ := h.bound_after k shown target' hk
      have hlt := (Array.getElem?_eq_some_iff.1 hnext).1
      exact ⟨id', n', hshown, by rw [if_neg (by omega), if_neg (by omega), hnext]⟩
  unified_before k id' n' hk := by
    simp only [Array.getElem?_push, Array.size_push] at hk ⊢
    by_cases hlast : k = log.size + 1
    · rw [if_pos hlast] at hk
      cases hk
      exact ⟨log.size, target, hlast, by rw [if_neg (by omega), if_pos rfl]⟩
    rw [if_neg hlast] at hk
    by_cases hnew : k = log.size
    · rw [if_pos hnew] at hk
      cases hk
    · rw [if_neg hnew] at hk
      obtain ⟨j, target', rfl, hj⟩ := h.unified_before k id' n' hk
      have hlt := (Array.getElem?_eq_some_iff.1 hj).1
      exact ⟨j, target', rfl, by rw [if_neg (by omega), if_neg (by omega), hj]⟩

end Paired

end Event

namespace TypeStore

variable {s s' : TypeStore} {bs bs' : List (Nat × NodeId)} {i j k : NodeId}

/-! ### Bindings as they were made -/

/-- Node `i` is a variable that is bound to `j` according to `bs`. -/
def Told (bs : List (Nat × NodeId)) (s : TypeStore) (i j : NodeId) : Prop :=
  ∃ id binding, s.node? i = some (.var id binding) ∧ (id, j) ∈ bs

/-- The bindings `bs` are those of the store, each as it was made first. -/
structure Recorded (bs : List (Nat × NodeId)) (s : TypeStore) : Prop where
  /-- The store is valid. -/
  valid : s.Valid
  /-- No variable is bound twice. -/
  once : (bs.map Prod.fst).Nodup
  /-- What is bound is a bound variable of the store. -/
  bound : ∀ id ∈ bs.map Prod.fst, ∃ i j, s.node? i = some (.var id (some j))
  /-- Unbound variables are not bound. -/
  unbound : ∀ i id, s.node? i = some (.var id none) → id ∉ bs.map Prod.fst
  /-- The bindings lead to the representatives. -/
  leads : ∀ i, Relation.ReflTransGen (Told bs s) i (s.resolve i)

theorem Extends.told (h : s.Extends s') (hbs : bs ⊆ bs') (ht : Told bs s i j) :
    Told bs' s' i j := by
  obtain ⟨id, b, hi, hmem⟩ := ht
  obtain ⟨n', hn', hk⟩ := h.kept i _ hi
  cases hk with
  | same => exact ⟨id, b, hn', hbs hmem⟩
  | bound _ _ target => exact ⟨id, some target, hn', hbs hmem⟩

theorem Extends.tolds (h : s.Extends s') (hbs : bs ⊆ bs')
    (ht : Relation.ReflTransGen (Told bs s) i j) : Relation.ReflTransGen (Told bs' s') i j :=
  Relation.ReflTransGen.mono (fun _ _ => h.told hbs) _ _ ht

theorem Valid.varId_lt (hs : s.Valid) {id : Nat} {b : Option NodeId}
    (hi : s.node? i = some (.var id b)) : id < s.varCount := by
  rw [← List.mem_range, ← hs.varIds_eq, varIds, List.mem_filterMap]
  exact ⟨_, Array.mem_toList_iff.2 (Array.mem_of_getElem? hi), rfl⟩

theorem Extends.bound (h : s.Extends s') {id : Nat}
    (hi : s.node? i = some (.var id (some j))) : ∃ j', s'.node? i = some (.var id (some j')) := by
  obtain ⟨n', hn', hk⟩ := h.kept i _ hi
  cases hk with
  | same => exact ⟨j, hn'⟩
  | bound _ _ target => exact ⟨target, hn'⟩

namespace Recorded

theorem initial : Recorded [] initial where
  valid := valid_initial
  once := List.nodup_nil
  bound := by simp
  unbound := by simp
  leads i := by
    rw [resolve_of_root]
    intro id j hn
    have hi : i < 2 := lt_size_of_node? hn
    obtain rfl | rfl : i = 0 ∨ i = 1 := by lia
    · cases hn
    · cases hn

/-- Shorter ways are not told of, and lead to the same representatives. -/
theorem sameTypes (h : Recorded bs s) (hs : s.SameTypes s') : Recorded bs s' where
  valid := h.valid.refines hs.toRefines
  once := h.once
  bound id hid := by
    obtain ⟨i, j, hi⟩ := h.bound id hid
    exact ⟨i, hs.toExtends.bound hi⟩
  unbound i id hi := h.unbound i id (hs.unbound hi)
  leads i := by
    rw [hs.resolve_eq]
    exact hs.toExtends.tolds (List.Subset.refl bs) (h.leads i)

theorem bind (h : Recorded bs s) (b : s.Binding) :
    Recorded (bs ++ [(b.id, b.target)]) (s.bind b) := by
  have hs := h.valid.toWellFormed
  have href := b.refines hs
  refine ⟨h.valid.refines href, ?_, fun id hid => ?_, fun i id hi hid => ?_, fun i => ?_⟩
  · rw [List.map_append, List.nodup_append]
    refine ⟨h.once, List.nodup_singleton _, fun id hid id' hid' heq => ?_⟩
    rw [List.map_singleton, List.mem_singleton] at hid'
    rw [heq, hid'] at hid
    exact h.unbound b.var b.id b.unbound hid
  · rw [List.map_append, List.mem_append, List.map_singleton, List.mem_singleton] at hid
    rcases hid with hid | rfl
    · obtain ⟨i, j, hi⟩ := h.bound id hid
      exact ⟨i, href.toExtends.bound hi⟩
    · exact ⟨b.var, b.target, b.node?_var⟩
  · have hi' := href.unbound hi
    rw [List.map_append, List.mem_append, List.map_singleton, List.mem_singleton] at hid
    rcases hid with hid | rfl
    · exact h.unbound i id hi' hid
    · -- no other variable has the number of the one that is bound
      rw [eq_of_varId h.valid.nodup_varIds hi' b.unbound, b.node?_var] at hi
      cases hi
  · have hold : Relation.ReflTransGen (Told (bs ++ [(b.id, b.target)]) (s.bind b)) i
        (s.resolve i) :=
      href.toExtends.tolds (List.subset_append_left _ _) (h.leads i)
    rw [b.resolve_eq hs]
    split
    · rename_i hvar
      rw [hvar] at hold
      exact hold.tail ⟨b.id, some b.target, b.node?_var, by simp⟩
    · exact hold

theorem push {n : Node} {c : Nat} (h : Recorded bs s) (hvalid : (s.push n c).Valid)
    (hlinks : ∀ j ∈ n.links, j < s.size) (hroot : ∀ id j, n ≠ .var id (some j))
    (hnew : ∀ id, n = .var id none → id ∉ bs.map Prod.fst) : Recorded bs (s.push n c) where
  valid := hvalid
  once := h.once
  bound id hid := by
    obtain ⟨i, j, hi⟩ := h.bound id hid
    exact ⟨i, (extends_push s n c).bound hi⟩
  unbound i id hi := by
    rw [node?_push] at hi
    split at hi
    · exact hnew id (Option.some.inj hi)
    · exact h.unbound i id hi
  leads i := by
    rw [push_resolve h.valid.toWellFormed hlinks hroot]
    exact (extends_push s n c).tolds (List.Subset.refl bs) (h.leads i)

theorem fresh (h : Recorded bs s) : Recorded bs s.fresh.2 := by
  refine h.push h.valid.fresh (by simp) (by simp) fun id hid hmem => ?_
  cases hid
  obtain ⟨i, j, hi⟩ := h.bound _ hmem
  exact Nat.lt_irrefl _ (h.valid.varId_lt hi)

theorem function (h : Recorded bs s) {result : NodeId} {params : List NodeId}
    (hlt : ∀ j ∈ result :: params, j < s.size) : Recorded bs (s.function result params).2 :=
  h.push (h.valid.function hlt) hlt (by simp) (by simp)

/-! ### Following the bindings -/

/-- Nothing is told of a node that is not bound. -/
theorem not_told (h : Recorded bs s) (hr : s.Root i) : ¬ Told bs s i j := by
  rintro ⟨id, b, hi, hmem⟩
  cases b with
  | none => exact h.unbound i id hi (List.mem_map_of_mem hmem)
  | some j => exact hr id j hi

/-- Of a node that is bound, something is told. -/
theorem mem_of_bound (h : Recorded bs s) {id : Nat} (hi : s.node? i = some (.var id (some j))) :
    id ∈ bs.map Prod.fst := by
  rcases (h.leads i).cases_head with heq | ⟨k, ⟨id', b, hi', hmem⟩, -⟩
  · exact absurd (heq ▸ hi) (root_resolve h.valid.toWellFormed i id j)
  · rw [hi] at hi'
    cases hi'
    exact List.mem_map_of_mem hmem

theorem told_unique (h : Recorded bs s) : Relator.RightUnique (Told bs s) := by
  rintro i j k ⟨id, b, hi, hj⟩ ⟨id', b', hi', hk⟩
  rw [hi] at hi'
  cases hi'
  exact congrArg Prod.snd (List.inj_on_of_nodup_map h.once hj hk rfl)

/-- **Following the bindings as they were told ends at the representative**, and nowhere else. -/
theorem ends_iff (h : Recorded bs s) :
    (Relation.ReflTransGen (Told bs s) i j ∧ ∀ k, ¬ Told bs s j k) ↔ j = s.resolve i := by
  have hstop : ∀ k, ¬ Told bs s (s.resolve i) k :=
    fun _ => h.not_told (root_resolve h.valid.toWellFormed i)
  constructor
  · rintro ⟨hij, hj⟩
    -- of two ends of one way, one comes after the other, and nothing comes after an end
    rcases Relation.ReflTransGen.total_of_right_unique h.told_unique hij (h.leads i)
      with hway | hway
    · rcases hway.cases_head with heq | ⟨k, hk, -⟩
      · exact heq
      · exact absurd hk (hj k)
    · rcases hway.cases_head with heq | ⟨k, hk, -⟩
      · exact heq.symm
      · exact absurd hk (hstop k)
  · rintro rfl
    exact ⟨h.leads i, hstop⟩

end Recorded

/-! ### How many variables are bound -/

/-- The number of the variable at a node. -/
def varIdAt (s : TypeStore) (i : NodeId) : Nat := ((s.node? i).bind Node.varId?).getD 0

theorem varIdAt_eq {id : Nat} {b : Option NodeId} (h : s.node? i = some (.var id b)) :
    s.varIdAt i = id := by
  rw [varIdAt, h]
  rfl

/-- As many bindings are told of as there are bound variables: their numbers are the same. -/
theorem Recorded.length_eq (h : Recorded bs s) : bs.length = s.boundVars.card := by
  have hinj : Set.InjOn s.varIdAt s.boundVars := by
    intro i hi j hj heq
    obtain ⟨id, _, hi⟩ := mem_boundVars.1 hi
    obtain ⟨id', _, hj⟩ := mem_boundVars.1 hj
    rw [varIdAt_eq hi, varIdAt_eq hj] at heq
    exact eq_of_varId h.valid.nodup_varIds (heq ▸ hi) hj
  have himage : s.boundVars.image s.varIdAt = (bs.map Prod.fst).toFinset := by
    ext id
    rw [Finset.mem_image, List.mem_toFinset]
    constructor
    · rintro ⟨i, hi, rfl⟩
      obtain ⟨id, j, hi⟩ := mem_boundVars.1 hi
      rw [varIdAt_eq hi]
      exact h.mem_of_bound hi
    · intro hid
      obtain ⟨i, j, hi⟩ := h.bound id hid
      exact ⟨i, mem_boundVars.2 ⟨id, j, hi⟩, varIdAt_eq hi⟩
  rw [← Finset.card_image_of_injOn hinj, himage, List.toFinset_card_of_nodup h.once,
    List.length_map]

end TypeStore

namespace Session

open TypeStore

variable {s t : Session}

/-! ### What every move keeps -/

/-- The log of a session that is still open tells what has happened so far. -/
structure Tells (s : Session) : Prop where
  /-- The bindings that were logged are those of the store. -/
  recorded : Recorded (Event.bindings s.log) s.types
  /-- Bindings are announced. -/
  paired : Event.Paired s.log
  /-- The depth that was logged last is the one there is. -/
  depth : Event.depthAfter s.log = some s.scopes.depth

theorem tells_initial : Session.initial.Tells := ⟨.initial, Event.paired_empty, rfl⟩

namespace Tells

/-- An event that is not part of a binding is logged, perhaps as the scopes change. -/
theorem push (h : s.Tells) {e : Event} {S : Scopes NodeId}
    (hu : ∀ shown target, e ≠ .unified shown target) (hb : e.binding? = none)
    (hd : e.nextDepth s.scopes.depth = some S.depth) :
    ({ s with scopes := S, log := s.log.push e } : Session).Tells where
  recorded := by
    have hpush : Event.bindings (s.log.push e) = Event.bindings s.log := by simp [hb]
    dsimp only
    rw [hpush]
    exact h.recorded
  paired := h.paired.push hu hb
  depth := by rw [Event.depthAfter_push, h.depth, Option.bind_some, hd]

theorem bind (h : s.Tells) (b : s.types.Binding) :
    ({ s with toInference := s.toInference.bind b } : Session).Tells where
  recorded := by
    have hpush : Event.bindings (s.toInference.bind b).log =
        Event.bindings s.log ++ [(b.id, b.target)] := by
      simp [Inference.bind, Event.binding?]
    dsimp only
    rw [hpush]
    exact h.recorded.bind b
  paired := by
    have hs := h.recorded.valid.toWellFormed
    have hshown : s.types.display b.var = "t" ++ toString b.id := by
      rw [hs.display_eq (lt_size_of_node? b.unbound), resolve_of_root (root_of_unbound b.unbound),
        b.unbound]
    have hboth := h.paired.push_both b.id b.target (s.types.display b.target)
    rwa [← hshown] at hboth
  depth := by
    have hlog : (s.toInference.bind b).log = (s.log.push (.unified (s.types.display b.var)
      (s.types.display b.target))).push (.bound b.id b.target) := rfl
    dsimp only
    rw [hlog, Event.depthAfter_push, Event.depthAfter_push, h.depth]
    rfl

end Tells

theorem Move.tells (hmove : Move s t) (h : s.Tells) : t.Tells := by
  cases hmove with
  | note e he =>
    exact h.push (Event.ne_unified_of_isPlain he) (Event.binding?_of_isPlain he)
      (Event.nextDepth_of_isPlain he _)
  | infer hstep =>
    cases hstep with
    | find a _ =>
      have hs := h.recorded.valid.toWellFormed
      exact ⟨h.recorded.sameTypes (find_sameTypes hs a), h.paired, h.depth⟩
    | bind b => exact h.bind b
  | fresh => exact ⟨h.recorded.fresh, h.paired, h.depth⟩
  | function hlt => exact ⟨h.recorded.function hlt, h.paired, h.depth⟩
  | declare x hstack _ =>
    refine ⟨h.recorded, h.paired, h.depth.trans ?_⟩
    simp only [Scopes.depth, hstack, List.length_cons]
  | enter => exact h.push (by simp) rfl (if_pos rfl)
  | exit hexit hopen =>
    obtain ⟨scope, hstack⟩ := Scopes.stack_of_exit? hexit
    refine h.push (by simp) rfl (if_pos ⟨?_, Scopes.depth_pos hopen⟩)
    rw [Scopes.depth, Scopes.depth, hstack, List.length_cons]
  | setReturnType _ => exact ⟨h.recorded, h.paired, h.depth⟩

theorem tells_of_moves (hmoves : Relation.ReflTransGen Move s t) (h : s.Tells) : t.Tells := by
  induction hmoves with
  | refl => exact h
  | tail _ hmove ih => exact hmove.tells ih

/-! ### After a check -/

/-- The log of a session tells its whole story. -/
structure Logged (s : Session) : Prop where
  /-- Scopes are opened and closed in pairs, at depths that step by one from 1 and return to 1. -/
  balanced : Event.depthAfter s.log = some 1
  /-- Every binding comes directly after its announcement, and nothing else is announced. -/
  paired : Event.Paired s.log
  /-- No variable is bound twice. -/
  once : ((Event.bindings s.log).map Prod.fst).Nodup
  /-- From every node, the bindings that were logged lead to its representative in the store, and
  to no other end. -/
  leads : ∀ i j, (Relation.ReflTransGen (Told (Event.bindings s.log) s.types) i j ∧
    ∀ k, ¬ Told (Event.bindings s.log) s.types j k) ↔ j = s.types.resolve i
  /-- As many bindings were logged as there are bound variables. -/
  count : (Event.bindings s.log).length = s.types.boundVars.card

theorem Tells.logged (h : s.Tells) (hdepth : s.scopes.depth = 1) : s.Logged where
  balanced := by rw [h.depth, hdepth]
  paired := h.paired
  once := h.recorded.once
  leads _ _ := h.recorded.ends_iff
  count := h.recorded.length_eq

end Session

/-- The session that a check ends in. -/
def Checked.session : Checked → Session
  | .ok _ s => s
  | .error _ s => s

/-- **The log tells the whole story of a check**, whether the program is accepted or rejected. -/
theorem Program.check_logged (p : Program) : (Checked.session p.check).Logged := by
  have hcheck : Checker.Proceeds .initial (fun _ _ => True) p.check :=
    Checker.program_proceeds Session.wellFormed_initial p
  have hlogged : ∀ {t}, Session.initial.Course t → t.Logged := fun hcourse =>
    (Session.tells_of_moves hcourse.moves Session.tells_initial).logged hcourse.depth_eq
  generalize p.check = r at hcheck
  cases hcheck with
  | accepted hcourse _ => exact hlogged hcourse
  | rejected hcourse => exact hlogged hcourse

/-- In a block of its own, the type `t0` of `x` is bound to the type `t1` of `y`, and that to
`int`. -/
example : (Checked.session (checkSource r"var x; { var y; x := y; y := 1; }" "f")).log =
    #[.registering 0, .checkingMain 1 1, .scopeEntered 2, .unified "t0" "t1", .bound 0 3,
      .unified "t1" "int", .bound 1 0, .scopeExited 1, .wellTyped 2] := by decide +kernel

end SimpleLang
