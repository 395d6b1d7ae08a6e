import SimpleLang.Proofs.Check.Frame
import Mathlib.Data.List.Sort
import Mathlib.Data.String.Basic

/-!
# The declarations of the outermost scope

What a check shows in the end are the declarations of the outermost scope, sorted by name.  Sorting
moves declarations about and nothing else, and as a scope declares no name twice, the names and
what the scope makes of them determine the sorted list (`Scopes.sortByName_map_eq`).
-/

namespace SimpleLang

namespace Scopes

variable {α β : Type} {ds es : List (String × α)}

/-! ### Sorting by name -/

theorem insertByName_eq (d : String × α) (ds : List (String × α)) :
    insertByName d ds = ds.orderedInsert (fun d e => d.1 ≤ e.1) d := by
  induction ds with
  | nil => rfl
  | cons e es ih => rw [insertByName, List.orderedInsert, ih]

theorem sortByName_eq (ds : List (String × α)) :
    sortByName ds = ds.insertionSort (fun d e => d.1 ≤ e.1) := by
  induction ds with
  | nil => rfl
  | cons d ds ih =>
    rw [List.insertionSort_cons, ← ih, ← insertByName_eq]
    rfl

theorem sortByName_perm (ds : List (String × α)) : (sortByName ds).Perm ds := by
  rw [sortByName_eq]
  exact List.perm_insertionSort _ ds

theorem sortByName_pairwise (ds : List (String × α)) :
    (sortByName ds).Pairwise fun d e => d.1 ≤ e.1 := by
  have htotal : Std.Total fun d e : String × α => d.1 ≤ e.1 := ⟨fun d e => le_total d.1 e.1⟩
  have htrans : IsTrans (String × α) fun d e => d.1 ≤ e.1 := ⟨fun _ _ _ h h' => le_trans h h'⟩
  rw [sortByName_eq]
  exact List.pairwise_insertionSort _ ds

/-! ### Names that are declared once -/

theorem lookup_of_mem (hds : (ds.map Prod.fst).Nodup) {d : String × α} (hd : d ∈ ds) :
    ds.lookup d.1 = some d.2 := by
  induction ds with
  | nil => cases hd
  | cons e es ih =>
    rw [List.map_cons, List.nodup_cons] at hds
    rcases List.mem_cons.1 hd with rfl | hd
    · rw [List.lookup_cons_self]
    · have hne : d.1 ≠ e.1 := fun h => hds.1 (h ▸ List.mem_map_of_mem hd)
      rw [List.lookup_cons, show (d.1 == e.1) = false by simpa using hne]
      exact ih hds.2 hd

theorem mem_names_iff {x : String} : x ∈ ds.map Prod.fst ↔ ds.lookup x ≠ none := by
  rw [← Option.isSome_iff_ne_none, List.lookup_isSome_iff, List.mem_map]
  simp only [beq_iff_eq]
  exact exists_congr fun d => and_congr_right fun _ => eq_comm

theorem mem_iff_lookup (hds : (ds.map Prod.fst).Nodup) {x : String} {a : α} :
    (x, a) ∈ ds ↔ ds.lookup x = some a := by
  refine ⟨fun hmem => lookup_of_mem hds hmem, fun hfound => ?_⟩
  obtain ⟨before, after, rfl, -⟩ := List.lookup_eq_some_iff.1 hfound
  simp

theorem nodup_cons {x : String} {a : α} (hds : (ds.map Prod.fst).Nodup)
    (hnew : ds.lookup x = none) : (((x, a) :: ds).map Prod.fst).Nodup := by
  refine List.nodup_cons.2 ⟨fun hmem => ?_, hds⟩
  obtain ⟨d, hd, rfl⟩ := List.mem_map.1 hmem
  rw [lookup_of_mem hds hd] at hnew
  cases hnew

/-- Where no name is declared twice, the sorted names grow. -/
theorem sortByName_strict (hds : (ds.map Prod.fst).Nodup) :
    (sortByName ds).Pairwise fun d e => d.1 < e.1 := by
  have hnodup : ((sortByName ds).map Prod.fst).Nodup :=
    ((sortByName_perm ds).map Prod.fst).nodup_iff.2 hds
  exact (sortByName_pairwise ds).imp₂ (fun _ _ hle hne => lt_of_le_of_ne hle hne)
    (List.pairwise_map.1 hnodup)

/-- Scopes with the same declarations are sorted to the same list. -/
theorem sortByName_eq_of_mem_iff (hds : (ds.map Prod.fst).Nodup) (hes : (es.map Prod.fst).Nodup)
    (h : ∀ d, d ∈ ds ↔ d ∈ es) : sortByName ds = sortByName es := by
  have hperm : ds.Perm es := (List.perm_ext_iff_of_nodup hds.of_map hes.of_map).2 h
  refine ((sortByName_perm ds).trans (hperm.trans (sortByName_perm es).symm)).eq_of_pairwise
    (fun _ _ _ _ hlt hgt => absurd hlt (lt_asymm hgt)) (sortByName_strict hds)
    (sortByName_strict hes)

/-- What is made of sorted declarations follows from the names and from what the scope makes of
each. -/
theorem sortByName_map_eq (hds : (ds.map Prod.fst).Nodup) (f : α → β) :
    ((sortByName ds).map Prod.snd).map f =
      ((sortByName ds).map Prod.fst).filterMap fun x => (ds.lookup x).map f := by
  rw [List.filterMap_map, List.map_map, ← List.filterMap_eq_map]
  refine List.filterMap_congr fun d hd => ?_
  simp [lookup_of_mem hds ((sortByName_perm ds).mem_iff.1 hd)]

/-- Scopes that declare the same names list them in the same order. -/
theorem sortByName_names_eq {es : List (String × β)} (hds : (ds.map Prod.fst).Nodup)
    (hes : (es.map Prod.fst).Nodup) (h : ∀ x, x ∈ ds.map Prod.fst ↔ x ∈ es.map Prod.fst) :
    (sortByName ds).map Prod.fst = (sortByName es).map Prod.fst := by
  have hnames : (ds.map Prod.fst).Perm (es.map Prod.fst) :=
    (List.perm_ext_iff_of_nodup hds hes).2 h
  have hperm : ((sortByName ds).map Prod.fst).Perm ((sortByName es).map Prod.fst) :=
    ((sortByName_perm ds).map _).trans (hnames.trans ((sortByName_perm es).map _).symm)
  exact hperm.eq_of_pairwise (fun _ _ _ _ h h' => le_antisymm h h')
    (List.pairwise_map.2 (sortByName_pairwise ds)) (List.pairwise_map.2 (sortByName_pairwise es))

/-- From a single scope without declarations comes a single scope that declares no name twice. -/
theorem Extends.exists_single {D : String → Prop} {S : Scopes α}
    (h : (initial : Scopes α).Extends D S) :
    ∃ scope, S = ⟨[scope]⟩ ∧ (scope.map Prod.fst).Nodup := by
  induction h with
  | refl => exact ⟨[], rfl, List.nodup_nil⟩
  | @declare scope outer x a _ _ hnone ih =>
    obtain ⟨_, heq, hnodup⟩ := ih
    cases heq
    exact ⟨(x, a) :: scope, rfl, nodup_cons hnodup hnone⟩

end Scopes

namespace Session

variable {s : Session}

theorem WellFormed.globals_lt (hs : s.WellFormed) :
    ∀ d ∈ s.scopes.globals, d.2 < s.types.size := by
  intro d hd
  rw [Scopes.globals, (Scopes.sortByName_perm _).mem_iff] at hd
  cases hl : s.scopes.stack.getLast? with
  | none =>
    rw [hl] at hd
    cases hd
  | some scope =>
    rw [hl] at hd
    exact hs.scopes scope (List.mem_of_getLast? hl) d hd

end Session

end SimpleLang
