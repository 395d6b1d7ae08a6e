import SimpleLang.Proofs.Parse.Recognition
import SimpleLang.Proofs.Parse.Replay

/-!
# The first token that does not fit

A list of tokens that is no program is rejected at the first token that no program goes on with
(`Program.read_error_at_misfit`): what comes before it begins some program, and whatever comes after
it, the list is rejected there.
-/

namespace SimpleLang

/-- Everything stays where it is. -/
def Relocation.refl : Relocation := ⟨id, id⟩

theorem Relocation.map_refl (ts : List Token) : ts.map (Token.relocate .refl) = ts :=
  List.map_id ts

namespace Program

open Phrase

variable {tokens tokens' ts : List Token} {file : String} {d : Diagnostic} {c : Cursor}

/-- Where reading comes to from the beginning of a list. -/
theorem terminate_eq_of_passes (h : (Cursor.start file tokens).Passes ts c) :
    Cursor.terminate file tokens = ts ++ c.rest ∧ c.index = ts.length := by
  refine ⟨by rw [← Cursor.rest_start, h.rest], ?_⟩
  rw [h.index_eq, Cursor.index, Cursor.start_before]
  exact Nat.zero_add _

/-- A list that begins with the same tokens up to the rejected one is rejected there too. -/
theorem read_error_of_begins (hpass : (Cursor.start file tokens).Passes ts c)
    (h : read tokens file = .error d c)
    (hbegins : ts ++ [c.current] <+: Cursor.terminate file tokens') :
    ∃ c', read tokens' file = .error d c' ∧ c'.index = ts.length := by
  have hecho : Cursor.Echoes .refl (Cursor.start file tokens) (ts ++ [c.current])
      (Cursor.start file tokens') := by
    refine ⟨Cursor.start_terminated file tokens', ?_, ?_⟩
    · rw [Cursor.rest_start, Relocation.map_refl]
      exact hbegins
    · simp [Cursor.lastPosition, Cursor.start_before, Cursor.start_file, Relocation.refl]
  have hreplays := Parser.program_replays (ρ := .refl) (m := (Cursor.start file tokens').remaining)
    (Cursor.start_terminated file tokens)
  rw [show Parser.program .standard (Cursor.start file tokens) = .error d c from h] at hreplays
  cases hreplays with
  | stuck hpass' hreplay =>
    obtain rfl := hpass.unique hpass'
    obtain ⟨c', hc', hrun⟩ := hreplay _ (Nat.le_refl _) hecho
    rw [Relocation.map_refl] at hc'
    exact ⟨c', hrun, (terminate_eq_of_passes hc').2⟩

/-- What begins a program can be completed to a list that is read. -/
theorem exists_read_of_viable (file : String) (h : Viable (Sequence NearestTopLevel) ts) :
    ∃ us p c, read (ts ++ us) file = .ok p c := by
  obtain ⟨us, items, hitems⟩ := h
  refine ⟨us ++ [filler .eof], ofItems items, ⟨(ts ++ us).reverse, filler .eof, [], file⟩, ?_⟩
  rw [← List.append_assoc]
  exact Parser.program_accepts hitems (start_passes file (ts ++ us) rfl) rfl

/-- **Errors are reported at the first token that does not fit.**  A list that is not read, with the
end of input that is added to it if it has none, is rejected at a token such that

* the text and the start of that token are reported;
* every list that has the same tokens up to this one is rejected with the same report at the same
  index;
* the tokens before it can be completed to a list that is read. -/
theorem read_error_at_misfit (tokens : List Token) (file : String) (d : Diagnostic) (c : Cursor)
    (h : read tokens file = .error d c) :
    (∃ t, (Cursor.terminate file tokens)[c.index]? = some t ∧ d.problem.token? = some t.text ∧
      d.position = t.span.start) ∧
    (∀ tokens', (∀ i ≤ c.index,
        (Cursor.terminate file tokens')[i]? = (Cursor.terminate file tokens)[i]?) →
      ∃ c', read tokens' file = .error d c' ∧ c'.index = c.index) ∧
    ∃ us p c', read ((Cursor.terminate file tokens).take c.index ++ us) file = .ok p c' := by
  have hreading := Parser.program_reading (Cursor.start_terminated file tokens)
  rw [show Parser.program .standard (Cursor.start file tokens) = .error d c from h] at hreading
  cases hreading with
  | @stuck ts _ _ hpass habout hviable =>
    obtain ⟨hterminate, hindex⟩ := terminate_eq_of_passes hpass
    rw [hterminate, hindex, List.take_left]
    refine ⟨⟨c.current, by simp [Cursor.rest], habout.text, habout.position⟩, ?_,
      exists_read_of_viable file hviable⟩
    intro tokens' hagree
    refine read_error_of_begins hpass h (List.prefix_iff_getElem?.2 fun i hi => ?_)
    rw [List.length_append, List.length_singleton] at hi
    rw [hagree i (by omega), ← List.getElem?_eq_getElem, Cursor.rest,
      List.append_cons, List.getElem?_append_left (by simpa using hi)]

/-- The tokens of `x := * 1;`, which is rejected at the operator. -/
def missingOperand : List Token :=
  [.single 0 .identifier "x", .single 1 .assignment ":=", .single 2 .star "*",
    .single 3 .number "1", .single 4 .semicolon ";"]

theorem read_error_at_misfit_missingOperand :
    ∃ c, read missingOperand "" = .error ⟨.unexpectedToken "*", ⟨2, ""⟩⟩ c ∧ c.index = 2 ∧
      ∃ us p c', read (missingOperand.take 2 ++ us) "" = .ok p c' := by
  have hrun : read missingOperand "" = .error ⟨.unexpectedToken "*", ⟨2, ""⟩⟩
      ⟨[.single 1 .assignment ":=", .single 0 .identifier "x"], .single 2 .star "*",
        [.single 3 .number "1", .single 4 .semicolon ";", .endOfInput ⟨5, ""⟩], ""⟩ := rfl
  exact ⟨_, hrun, rfl, (read_error_at_misfit missingOperand "" _ _ hrun).2.2⟩

end Program

end SimpleLang
