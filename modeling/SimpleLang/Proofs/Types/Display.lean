import SimpleLang.Proofs.Types.Instances

/-!
# The text of a type tells the type

Two nodes are shown by the same text exactly if they stand for the same type
(`TypeStore.display_unambiguous`).

The text of a type is read from left to right without a doubt: its first character tells what kind
of type it is, and after it can only come the end, a comma or a closing bracket, none of which
could go on with a number (`Ty.told`).  A variable is shown by its number, and no two
variables of a store have one number.

## Main definitions

* `TypeStore.SameType s a b` : the nodes `a` and `b` have one constant or one unbound variable as
  representative, or function types with as many parameters and the same types in order.
-/

namespace SimpleLang

namespace Ty

variable {t u : Ty} {x y : List Char}

/-! ### Reading a text -/

/-- What can come after the text of a type inside of another, or at the end. -/
def Stops (x : List Char) : Prop := ∀ c ∈ x.head?, c = ',' ∨ c = ')'

theorem stops_nil : Stops [] := by simp [Stops]

theorem stops_close (x : List Char) : Stops (')' :: x) := by simp [Stops]

theorem toList_text_var (v : Nat) : (var v).text.toList = 't' :: Nat.toDigits 10 v := by
  simp [text]

theorem toList_text_fn (params : List Ty) (result : Ty) :
    (fn params result).text.toList =
      '(' :: ((texts params).toList ++ ')' :: ' ' :: '-' :: '>' :: ' ' :: result.text.toList) := by
  simp [text]

/-- What comes after the first of some types between brackets. -/
def afterFirst : List Ty → List Char → List Char
  | [], x => ')' :: x
  | t :: ts, x => ',' :: ' ' :: ((texts (t :: ts)).toList ++ ')' :: x)

theorem toList_texts_cons (t : Ty) (ts : List Ty) (x : List Char) :
    (texts (t :: ts)).toList ++ ')' :: x = t.text.toList ++ afterFirst ts x := by
  cases ts with
  | nil => rw [texts, afterFirst]
  | cons u us => simp [texts, afterFirst]

theorem stops_afterFirst (ts : List Ty) (x : List Char) : Stops (afterFirst ts x) := by
  cases ts <;> simp [Stops, afterFirst]

/-- No text begins like what can come after one. -/
theorem not_stops_text (t : Ty) (x : List Char) : ¬ Stops (t.text.toList ++ x) := by
  rcases t with (_ | _) | v | ⟨params, result⟩
  · simp [Stops, text, BaseType.text]
  · simp [Stops, text, BaseType.text]
  · simp [Stops, toList_text_var]
  · simp [Stops, toList_text_fn]

/-- The digits of a number end where no digit comes. -/
theorem toDigits_append_inj {v w : Nat} (hx : Stops x) (hy : Stops y)
    (h : Nat.toDigits 10 v ++ x = Nat.toDigits 10 w ++ y) : v = w ∧ x = y := by
  have hdigits : ∀ n, ∀ c ∈ Nat.toDigits 10 n, c.isDigit = true :=
    fun n c hc => Nat.isDigit_of_mem_toDigits (by decide) (by decide) hc
  have hnone : ∀ {z}, Stops z → z.takeWhile Char.isDigit = [] := by
    intro z hz
    cases z with
    | nil => rfl
    | cons c z => rcases hz c rfl with rfl | rfl <;> rfl
  have htake := congrArg (List.takeWhile Char.isDigit) h
  rw [List.takeWhile_append_of_pos (hdigits v), List.takeWhile_append_of_pos (hdigits w),
    hnone hx, hnone hy, List.append_nil, List.append_nil] at htake
  refine ⟨?_, ?_⟩
  · rw [← Nat.ofDigitChars_ten_toDigits (n := v), htake, Nat.ofDigitChars_ten_toDigits]
  · rw [htake] at h
    exact List.append_cancel_left h

/-- Wherever the text of a type stands, no other type can be read there. -/
def Told (t : Ty) : Prop :=
  ∀ u x y, Stops x → Stops y → t.text.toList ++ x = u.text.toList ++ y → t = u ∧ x = y

/-- Types between brackets, when each of them is told by its text. -/
theorem texts_append_inj : ∀ {ts us : List Ty} {x y : List Char}, (∀ t ∈ ts, t.Told) →
    (texts ts).toList ++ ')' :: x = (texts us).toList ++ ')' :: y → ts = us ∧ x = y := by
  intro ts
  induction ts with
  | nil =>
    intro us x y _ h
    cases us with
    | nil => simpa [texts] using h
    | cons u us =>
      -- a closing bracket begins no text
      rw [toList_texts_cons, texts, String.toList_empty, List.nil_append] at h
      exact absurd (h ▸ stops_close x) (not_stops_text _ _)
  | cons t ts ih =>
    intro us x y htold h
    cases us with
    | nil =>
      rw [toList_texts_cons, texts, String.toList_empty, List.nil_append] at h
      exact absurd (h ▸ stops_close y) (not_stops_text _ _)
    | cons u us =>
      rw [toList_texts_cons, toList_texts_cons] at h
      obtain ⟨rfl, hrest⟩ := htold t List.mem_cons_self u _ _ (stops_afterFirst ts x)
        (stops_afterFirst us y) h
      have hts : ∀ t ∈ ts, t.Told := fun t ht => htold t (List.mem_cons_of_mem _ ht)
      -- a comma or a closing bracket tells whether there is another type
      cases ts with
      | nil =>
        cases us with
        | nil => simpa [afterFirst] using hrest
        | cons v us => simp [afterFirst] at hrest
      | cons t' ts =>
        cases us with
        | nil => simp [afterFirst] at hrest
        | cons v us =>
          simp only [afterFirst, List.cons.injEq, true_and] at hrest
          obtain ⟨htail, rfl⟩ := ih hts hrest
          exact ⟨by rw [htail], rfl⟩

/-- Every type is told by its text, whatever comes after it. -/
theorem told (t : Ty) : t.Told := by
  induction t with
  | base b =>
    intro u x y _ _ h
    rcases u with b' | v | ⟨params, result⟩
    · cases b <;> cases b' <;> simp_all [text, BaseType.text]
    · cases b <;> simp [text, BaseType.text] at h
    · cases b <;> simp [text, BaseType.text] at h
  | var v =>
    intro u x y hx hy h
    rw [toList_text_var] at h
    rcases u with b | w | ⟨params, result⟩
    · cases b <;> simp [text, BaseType.text] at h
    · rw [toList_text_var] at h
      obtain ⟨rfl, rfl⟩ := toDigits_append_inj hx hy (List.cons.inj h).2
      exact ⟨rfl, rfl⟩
    · simp [text] at h
  | fn params result ihp ihr =>
    intro u x y hx hy h
    rw [toList_text_fn] at h
    rcases u with b | v | ⟨params', result'⟩
    · cases b <;> simp [text, BaseType.text] at h
    · simp [text] at h
    · simp only [toList_text_fn, List.cons_append, List.append_assoc, List.cons.injEq,
        true_and] at h
      obtain ⟨rfl, hresult⟩ := texts_append_inj ihp h
      simp only [List.cons.injEq, true_and] at hresult
      obtain ⟨rfl, rfl⟩ := ihr result' x y hx hy hresult
      exact ⟨rfl, rfl⟩

/-- **The text of a type tells the type.** -/
theorem text_inj : t.text = u.text ↔ t = u := by
  refine ⟨fun h => ?_, fun h => h ▸ rfl⟩
  refine (told t u [] [] stops_nil stops_nil ?_).1
  rw [h]

end Ty

namespace TypeStore

variable {s : TypeStore} {a b : NodeId}

/-! ### Nodes with the same type -/

/-- The nodes stand for the same constant, the same unbound variable, or for function types with as
many parameters, the same types of parameters in the same order and the same type of result. -/
inductive SameType (s : TypeStore) : NodeId → NodeId → Prop
  /-- The same constant. -/
  | constant {a b : NodeId} {t : BaseType} : s.node? (s.resolve a) = some (.constant t) →
    s.node? (s.resolve b) = some (.constant t) → SameType s a b
  /-- The same unbound variable. -/
  | unbound {a b : NodeId} {id : Nat} : s.node? (s.resolve a) = some (.var id none) →
    s.resolve b = s.resolve a → SameType s a b
  /-- Function types with the same components. -/
  | function {a b result result' : NodeId} {params params' : List NodeId} :
    s.node? (s.resolve a) = some (.function result params) →
    s.node? (s.resolve b) = some (.function result' params') →
    params.length = params'.length → (∀ p p', (p, p') ∈ params.zip params' → SameType s p p') →
    SameType s result result' → SameType s a b

/-- Lists of nodes stand for the same types when they do so in order. -/
theorem map_denote_eq_iff {as bs : List NodeId} : as.map s.denote = bs.map s.denote ↔
    as.length = bs.length ∧ ∀ p p', (p, p') ∈ as.zip bs → s.denote p = s.denote p' := by
  rw [← List.forall₂_eq_eq_eq, List.forall₂_map_left_iff, List.forall₂_map_right_iff,
    List.forall₂_iff_zip]

theorem SameType.denote_eq (hs : s.WellFormed) (h : s.SameType a b) :
    s.denote a = s.denote b := by
  induction h with
  | @constant a b t ha hb =>
    rw [← denote_resolve hs a, ← denote_resolve hs b, denote_constant ha, denote_constant hb]
  | @unbound a b id _ hab => rw [← denote_resolve hs a, ← denote_resolve hs b, hab]
  | @function a b result result' params params' ha hb hlen _ _ ihp ihr =>
    rw [← denote_resolve hs a, ← denote_resolve hs b, denote_function hs ha,
      denote_function hs hb, ihr, map_denote_eq_iff.2 ⟨hlen, ihp⟩]

/-- The representative of a node tells what type the node stands for. -/
theorem denote_cases (hs : s.WellFormed) (ha : a < s.size) :
    (∃ t, s.node? (s.resolve a) = some (.constant t) ∧ s.denote a = .base t) ∨
    (∃ id, s.node? (s.resolve a) = some (.var id none) ∧ s.denote a = .var (s.resolve a)) ∨
    ∃ result params, s.node? (s.resolve a) = some (.function result params) ∧
      s.denote a = .fn (params.map s.denote) (s.denote result) := by
  obtain ⟨n, hn⟩ := exists_node_of_lt (resolve_lt_size hs ha)
  rw [← denote_resolve hs a]
  rcases n with t | ⟨id, _ | j⟩ | ⟨result, params⟩
  · exact .inl ⟨t, hn, denote_constant hn⟩
  · exact .inr (.inl ⟨id, hn, denote_unbound hn⟩)
  · exact absurd hn (root_resolve hs a id j)
  · exact .inr (.inr ⟨result, params, hn, denote_function hs hn⟩)

theorem sameType_of_denote (hs : s.WellFormed) (τ : Ty) : ∀ {a b : NodeId}, a < s.size →
    b < s.size → s.denote a = τ → s.denote b = τ → s.SameType a b := by
  induction τ with
  | base t =>
    intro a b ha hb hat hbt
    obtain ⟨t₁, hna, h₁⟩ | ⟨_, _, h₁⟩ | ⟨_, _, _, h₁⟩ := denote_cases hs ha
    all_goals cases h₁.symm.trans hat
    obtain ⟨t₂, hnb, h₂⟩ | ⟨_, _, h₂⟩ | ⟨_, _, _, h₂⟩ := denote_cases hs hb
    all_goals cases h₂.symm.trans hbt
    exact .constant hna hnb
  | var v =>
    intro a b ha hb hav hbv
    obtain ⟨_, _, h₁⟩ | ⟨id, hna, h₁⟩ | ⟨_, _, _, h₁⟩ := denote_cases hs ha
    all_goals cases h₁.symm.trans hav
    obtain ⟨_, _, h₂⟩ | ⟨_, _, h₂⟩ | ⟨_, _, _, h₂⟩ := denote_cases hs hb
    · cases h₂.symm.trans hbv
    · exact .unbound hna (Ty.var.inj (h₂.symm.trans hbv))
    · cases h₂.symm.trans hbv
  | fn ps r ihp ihr =>
    intro a b ha hb haf hbf
    obtain ⟨_, _, h₁⟩ | ⟨_, _, h₁⟩ | ⟨result, params, hna, h₁⟩ := denote_cases hs ha
    all_goals cases h₁.symm.trans haf
    obtain ⟨_, _, h₂⟩ | ⟨_, _, h₂⟩ | ⟨result', params', hnb, h₂⟩ := denote_cases hs hb
    · cases h₂.symm.trans hbf
    · cases h₂.symm.trans hbf
    · obtain ⟨hparams, hresult⟩ := Ty.fn.inj (h₂.symm.trans hbf)
      have hlt : ∀ j ∈ result :: params, j < s.size := fun j hj => hs.lt_of_mem_links hna hj
      have hlt' : ∀ j ∈ result' :: params', j < s.size := fun j hj => hs.lt_of_mem_links hnb hj
      obtain ⟨hlen, heq⟩ := map_denote_eq_iff.1 hparams.symm
      refine .function hna hnb hlen (fun p p' hpp => ?_)
        (ihr (hlt _ List.mem_cons_self) (hlt' _ List.mem_cons_self) rfl hresult)
      obtain ⟨hp, hp'⟩ := List.of_mem_zip hpp
      exact ihp _ (List.mem_map_of_mem hp) (hlt p (List.mem_cons_of_mem _ hp))
        (hlt' p' (List.mem_cons_of_mem _ hp')) rfl (heq p p' hpp).symm

/-- Having the same type is standing for one type. -/
theorem sameType_iff (hs : s.WellFormed) (ha : a < s.size) (hb : b < s.size) :
    s.SameType a b ↔ s.denote a = s.denote b :=
  ⟨fun h => h.denote_eq hs, fun h => sameType_of_denote hs _ ha hb h rfl⟩

/-! ### What is shown -/

/-- Where no two variables have one number, the types that are shown tell the types apart. -/
theorem term_inj (hs : s.WellFormed) (hids : s.varIds.Nodup) (ha : a < s.size) (hb : b < s.size) :
    s.term a = s.term b ↔ s.denote a = s.denote b := by
  rw [term_eq hs ha, term_eq hs hb]
  refine ⟨fun h => ?_, fun h => by rw [h]⟩
  obtain ⟨τ, hτ⟩ := exists_unshown hids
  have hback : ∀ {i}, i < s.size → ((s.denote i).subst s.shown).subst τ = s.denote i := by
    intro i hi
    rw [Ty.subst_subst]
    nth_rewrite 2 [← Ty.subst_var (s.denote i)]
    refine Ty.subst_eq_subst_iff.2 fun v hv => ?_
    obtain ⟨id, hn⟩ := unbound_of_mentions hs hi hv
    exact hτ v id hn
  rw [← hback ha, h, hback hb]

/-- **The text of a type tells the type.**  In every store that arises, links stay inside of the
store and make no circle, and no two variables have one number; and in every such store two nodes
are shown by the same text exactly if they have the same type. -/
theorem display_unambiguous :
    (∀ s, Reachable s → s.WellFormed ∧ s.varIds.Nodup) ∧
    ∀ s : TypeStore, s.WellFormed → s.varIds.Nodup → ∀ a < s.size, ∀ b < s.size,
      (s.display a = s.display b ↔ s.SameType a b) := by
  constructor
  · intro s hs
    exact ⟨hs.valid.toWellFormed, hs.valid.nodup_varIds⟩
  · intro s hs hids a ha b hb
    rw [display, display, Ty.text_inj, term_inj hs hids ha hb, sameType_iff hs ha hb]

/-- After `t0` was made equal to `t1`, the types `(t0, int) -> t1` and `(t1, int) -> t0` are shown
by one text, and they are the same; `(int, t0) -> t1` is another type with another text. -/
theorem display_unambiguous_bound :
    let s := (((initial.fresh.2.fresh.2.function 3 [2, 0]).2.function 2 [3, 0]).2.function 3
      [0, 2]).2
    ∃ after, Unifier.unify 2 3 ⟨s, #[]⟩ = .ok () after ∧ Reachable after.types ∧
      after.types.display 4 = "(t1, int) -> t1" ∧ after.types.SameType 4 5 ∧
      ¬ after.types.SameType 4 6 := by
  intro s
  have hs : Reachable s :=
    ((((Relation.ReflTransGen.refl.tail (.fresh _)).tail (.fresh _)).tail
      (.function (by decide))).tail (.function (by decide))).tail (.function (by decide))
  have hrun : (match Unifier.unify 2 3 ⟨s, #[]⟩ with
      | .ok _ after => [after.types.display 4, after.types.display 5, after.types.display 6]
      | .error _ _ => []) = ["(t1, int) -> t1", "(t1, int) -> t1", "(int, t1) -> t1"] := by
    decide +kernel
  rcases hr : Unifier.unify 2 3 ⟨s, #[]⟩ with ⟨u, after⟩ | ⟨e, after⟩
  · rw [hr] at hrun
    obtain ⟨h4, h5, h6⟩ : after.types.display 4 = "(t1, int) -> t1" ∧
        after.types.display 5 = "(t1, int) -> t1" ∧
        after.types.display 6 = "(int, t1) -> t1" := by simpa using hrun
    have hreach : Reachable after.types := hs.tail (.unified (by decide) (by decide) hr)
    have hsize : after.types.size = 7 :=
      (hr ▸ Unifier.unify_solves (i := ⟨s, #[]⟩) hs.valid.toWellFormed (by decide)
        (by decide)).refines_ok.size_eq
    obtain ⟨hwf, hids⟩ := display_unambiguous.1 _ hreach
    have hiff := display_unambiguous.2 _ hwf hids
    refine ⟨after, rfl, hreach, h4, (hiff 4 (by omega) 5 (by omega)).1 (h4.trans h5.symm), ?_⟩
    intro hsame
    have htext := (hiff 4 (by omega) 6 (by omega)).2 hsame
    rw [h4, h6] at htext
    exact absurd htext (by decide)
  · rw [hr] at hrun
    cases hrun

end TypeStore

end SimpleLang
