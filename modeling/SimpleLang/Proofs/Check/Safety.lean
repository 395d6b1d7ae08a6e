import SimpleLang.Proofs.Check.Correspondence
import SimpleLang.Proofs.Check.Inference
import SimpleLang.Proofs.Types.Strict

/-!
# No check breaks a contract

Whatever program is checked, the outcome is that it is accepted or that something is reported
(`Program.check_safe`).  So a variable is bound only once and never to itself, scopes are left and
names declared only where a scope is open.  No node is looked for that is not there and no loop is
cut short: the check that reads its store strictly is the check itself.

When the turn of a function's body comes, the name of the function still has the type that was
registered for this very definition, so the body is checked against it: that the name is not a
function's, or has another number of parameters, never happens there.
-/

namespace SimpleLang

namespace Checker

/-! ### The turn of a body -/

/-- The check of a program up to the body of `f`.  Gives the type that was registered for `f`. -/
def untilBody (before : List FuncDef) (f : FuncDef) (after : List FuncDef) : Checker NodeId := do
  note (.registering (before ++ f :: after).length)
  signatures before
  let type ← signature f
  signatures after
  functions before
  return type

/-- The check of a program from the body of `f` on. -/
def fromBody (p : Program) (f : FuncDef) (after : List FuncDef) : Checker Unit := do
  function f
  functions after
  note (.checkingMain p.globals.length p.main.length)
  setReturnType none
  declarations p.globals
  stmts p.main

theorem signatures_append (fs gs : List FuncDef) :
    signatures (fs ++ gs) = (do signatures fs; signatures gs) := by
  induction fs with
  | nil => simp [signatures]
  | cons f fs ih => simp [signatures, ih]

theorem functions_append (fs gs : List FuncDef) :
    functions (fs ++ gs) = (do functions fs; functions gs) := by
  induction fs with
  | nil => simp [functions]
  | cons f fs ih => simp [functions, ih]

/-- The turn of every body comes. -/
theorem items_eq_turn {p : Program} {before after : List FuncDef} {f : FuncDef}
    (h : p.functions = before ++ f :: after) :
    items p = (do let _ ← untilBody before f after; fromBody p f after) := by
  simp [items, h, untilBody, fromBody, signatures_append, functions_append, signatures, functions]

/-- What is registered for a definition stays registered until the turn of its body comes. -/
theorem untilBody_corresponds {s : Session} (hs : s.WellFormed) (before : List FuncDef)
    (f : FuncDef) (after : List FuncDef) :
    Corresponds Access.Same (ProgramFrame s) (HasSignature f) (untilBody before f after s)
      (untilBody before f after s) := by
  -- the frame of each step goes back to `s`; from the registration of `f` on, so does its signature
  have h := Access.standard_faithful.simulates
  refine (note_corresponds (D := fun _ => True) h _ hs.related).self_seq (fun _ => .of_frame)
    fun _ t ht hFt _ => ?_
  have hst := ProgramFrame.of_frame hFt
  refine (signatures_corresponds (D := fun _ => True) h before ht.related
    fun _ _ => trivial).self_seq (fun _ hu => hst.trans (.of_frame hu)) fun _ u hu hFu _ => ?_
  have hsu := hst.trans (.of_frame hFu)
  refine (signature_corresponds (D := fun _ => True) h hu.related f trivial).self_seq
    (fun _ hv => hsu.trans (.of_frame hv)) fun type v hv hFv hsigned => ?_
  have hsv := hsu.trans (.of_frame hFv)
  refine (signatures_corresponds (D := fun _ => True) h after hv.related
    fun _ _ => trivial).self_seq (fun _ hw => hsv.trans (.of_frame hw)) fun _ w hw hFw _ => ?_
  have hsw := hsv.trans (.of_frame hFw)
  refine (functions_corresponds h before hw.related).self_seq
    (fun _ hx => hsw.trans (.of_function hx)) fun _ x hx hFx _ => ?_
  have hwx := ProgramFrame.of_function hFx
  exact .accepted hx.related (hsw.trans hwx)
    ((hsigned.keep hFw.types hFw.scopes).keep hwx.types hwx.scopes)

/-- A function whose name has a function type of so many parameters is checked against it. -/
theorem function_eq_body {s : Session} {f : FuncDef} {type result : NodeId}
    {params : List NodeId} (hname : s.scopes.lookup? f.name = some type)
    (hnode : s.types.node? type = some (.function result params))
    (hlen : params.length = f.params.length) : function f s = body f result params s := by
  have hroot := TypeStore.root_of_node hnode (by simp)
  have hrep : representative type f.span.start s = .ok (type, .function result params) s := by
    -- what is not bound represents itself
    have hresolve := TypeStore.resolve_of_root hroot
    have hfind := TypeStore.find_of_root hroot
    rw [representative_of_node (by rw [hfind, hresolve]; exact hnode), hfind, hresolve]
  rw [function, bind_of_ok (lookup_of_some hname), bind_of_ok hrep]
  exact congrFun (if_pos hlen) s

end Checker

namespace Program

open Checker

/-- **No check breaks a contract.**  Every program is accepted or rejected with a report.  The check
does the same when every node it looks at must be there and every loop must come to its end.  And
when the turn of a body comes, its function's name has the type that was registered for this
definition, a function type of as many parameters, and the body is checked against it. -/
theorem check_safe (p : Program) :
    ((∃ s, p.check = .ok () s) ∨ ∃ d s, p.check = .error (.rejected d) s) ∧
    Access.strict.check p = p.check ∧
    ∀ before f after, p.functions = before ++ f :: after →
      items p = (do let _ ← untilBody before f after; fromBody p f after) ∧
      ∀ type s, untilBody before f after .initial = .ok type s →
        ∃ result params, s.scopes.lookup? f.name = some type ∧
          s.types.node? type = some (.function result params) ∧
          params.length = f.params.length ∧ function f s = body f result params s := by
  refine ⟨?_, Access.strict_faithful.check_eq p, fun before f after hp =>
    ⟨items_eq_turn hp, fun type s hrun => ?_⟩⟩
  · have hcheck := program_corresponds Access.standard_faithful.simulates
      Session.wellFormed_initial.related p
    rcases hr : p.check with ⟨_, s⟩ | ⟨e, s⟩
    · exact .inl ⟨s, rfl⟩
    · have hrun : program p .initial = .error e s := hr
      rw [hrun] at hcheck
      obtain ⟨d, rfl, -⟩ := hcheck.of_error
      exact .inr ⟨d, s, rfl⟩
  · have huntil := untilBody_corresponds Session.wellFormed_initial before f after
    rw [hrun] at huntil
    obtain ⟨-, -, hname, result, params, hnode, hlen⟩ := huntil.of_ok
    have hlookup := Scopes.lookup?_of_here? hname
    exact ⟨result, params, hlookup, hnode, hlen, function_eq_body hlookup hnode hlen⟩

/-- A function that passes its argument on. -/
def relay (name callee : String) : FuncDef :=
  ⟨name, [⟨"x", none, .nowhere⟩], .block .nowhere []
    [.return .nowhere (.call .nowhere callee [.name .nowhere "x"])], .nowhere⟩

/-- Two functions that call each other: the body of the first has made their types equal when the
turn of the second comes. -/
theorem check_safe_relays :
    ∃ type s, untilBody [relay "f" "g"] (relay "g" "f") [] .initial = .ok type s ∧
      ∃ result params, s.scopes.lookup? "g" = some type ∧
        s.types.node? type = some (.function result params) ∧ params.length = 1 ∧
        function (relay "g" "f") s = body (relay "g" "f") result params s := by
  have hrun : (match untilBody [relay "f" "g"] (relay "g" "f") [] .initial with
      | .ok _ _ => true
      | .error _ _ => false) = true := by decide +kernel
  rcases hr : untilBody [relay "f" "g"] (relay "g" "f") [] .initial with ⟨type, s⟩ | ⟨e, s⟩
  · exact ⟨type, s, rfl, ((check_safe ⟨[relay "f" "g", relay "g" "f"], [], []⟩).2.2
      [relay "f" "g"] (relay "g" "f") [] rfl).2 type s hr⟩
  · rw [hr] at hrun
    cases hrun

end Program

end SimpleLang
