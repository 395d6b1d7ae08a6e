import SimpleLang.Proofs.Check.Correspondence
import SimpleLang.Proofs.Check.Globals
import SimpleLang.Proofs.Types.Alike

/-!
# Shortening ways cannot be observed

Asking for a representative binds every variable on the way to it directly.  The *plain* check asks
for representatives without writing to the store; it is otherwise the same.  Both come to the same
outcome, with stores that differ in nothing but the targets of bindings and with the same log
(`Program.check_plain`).
-/

namespace SimpleLang

namespace Session

variable {s s' : Session}

/-- Sessions that differ in nothing but the targets of bindings. -/
structure Alike (s s' : Session) : Prop where
  /-- The stores differ in the targets of bindings only. -/
  types : s.types.Alike s'.types
  /-- The same has happened, in the same order. -/
  log : s'.log = s.log
  /-- The same names are declared with the same nodes. -/
  scopes : s'.scopes = s.scopes
  /-- The return type is the same node. -/
  returnType : s'.returnType = s.returnType
  /-- The same types are shown for the declarations of the outermost scope. -/
  globalTypes : s'.globalTypes = s.globalTypes

theorem Related.alike (h : Related Access.Alike s s') : s.Alike s' where
  types := h.types.types
  log := h.types.log
  scopes := h.scopes
  returnType := h.returnType
  globalTypes := by
    rw [Session.globalTypes, Session.globalTypes, h.scopes]
    refine List.map_congr_left fun d hd => ?_
    change (d.1, s'.types.display d.2) = (d.1, s.types.display d.2)
    rw [h.types.types.display_eq h.types.left h.types.right (h.wellFormed.globals_lt d hd)]

end Session

/-- **Shortening ways cannot be observed.**  The check and the plain check, which reads
representatives without writing to the store, accept or reject alike, with the same diagnostic, and
end in sessions that differ in nothing but the targets of bindings. -/
theorem Program.check_plain (p : Program) :
    Access.standard.check p = p.check ∧
      SameOutcome Session.Alike p.check (Access.plain.check p) := by
  have hwf := Session.wellFormed_initial
  have hR : Session.Related Access.Alike .initial .initial :=
    ⟨hwf, ⟨hwf.types, hwf.types, .refl _, rfl⟩, rfl, rfl⟩
  have hcheck := Checker.program_corresponds Access.plain_simulates hR p
  refine ⟨Access.standard_faithful.check_eq p, ?_⟩
  change SameOutcome Session.Alike (Checker.program p .initial)
    (Access.plain.program p .initial)
  generalize Checker.program p .initial = r, Access.plain.program p .initial = r' at hcheck
  cases hcheck with
  | accepted hR _ _ => exact .ok hR.alike
  | rejected hR _ => exact .error hR.alike

end SimpleLang
