import SimpleLang.Proofs.Check.Correspondence
import SimpleLang.Proofs.Check.Relocation
import SimpleLang.Proofs.Parse.Replay

/-!
# Layout

The outcome of a check is decided by the kinds and the texts of the tokens: white space, comments
and the name of the file change nothing but the positions that are reported, and these are the
starts of corresponding tokens (`checkSource_layout`).

The tokens of one source cannot always be moved to those of another, since positions wrap around
and can be those of several tokens.  So both are compared with a third list, the tokens of which
stand at places of their own, one for each index (`Token.template`).  That a position is the start
of a token is seen from the same relation: it stays where it is under every relocation that leaves
the tokens where they are (`exists_token_of_rejected`).
-/

namespace SimpleLang

/-! ### Tokens elsewhere -/

/-- Reads and checks the program of a list of tokens. -/
def checkTokens (tokens : List Token) (file : String) : Checked :=
  match Program.ofTokens tokens file with
  | .error d => .error (.rejected d) .initial
  | .ok p => p.check

theorem checkSource_of_scan {source file : String} {tokens : List Token}
    (h : Token.scan source file = .ok tokens) :
    checkSource source file = checkTokens tokens file := by
  unfold checkSource
  rw [h]
  rfl

/-- The diagnostic that a check ends with, if it does. -/
def Checked.diagnostic? : Checked → Option Diagnostic
  | .ok _ _ => none
  | .error (.breach _) _ => none
  | .error (.rejected d) _ => some d

theorem Checked.exists_of_diagnostic? {r : Checked} {d : Diagnostic}
    (h : Checked.diagnostic? r = some d) : ∃ s, r = .error (.rejected d) s := by
  rcases r with ⟨_, _⟩ | ⟨_ | _, s⟩ <;> cases h
  exact ⟨s, rfl⟩

/-- The same outcome, in the same session if it is accepted, and with the problem reported elsewhere
if it is rejected. -/
inductive Checked.Moves (ρ : Relocation) : Checked → Checked → Prop
  | accepted {s : Session} : Moves ρ (.ok () s) (.ok () s)
  | rejected {d : Diagnostic} {s s' : Session} :
    Moves ρ (.error (.rejected d) s) (.error (.rejected (d.relocate ρ)) s')

open Checked (Moves)

variable {ρ : Relocation} {tokens : List Token} {file file' : String}

theorem Checked.Moves.of_rejected {d : Diagnostic} {s : Session} {r : Checked}
    (h : Moves ρ (.error (.rejected d) s) r) :
    ∃ s', r = .error (.rejected (d.relocate ρ)) s' := by
  cases h
  exact ⟨_, rfl⟩

theorem Program.check_moves (p : Program) : Moves ρ p.check (p.relocate ρ).check := by
  have hitems := Checker.items_corresponds Access.standard_faithful.simulates
    Session.wellFormed_initial.related p
  have hmoved := congrFun (Checker.items_relocate ρ p) .initial
  change Moves ρ (Checker.program p .initial) (Checker.program (p.relocate ρ) .initial)
  unfold Checker.program
  rw [hmoved]
  unfold Checker.relocated
  generalize Checker.items p .initial = r, Access.standard.items p .initial = r' at hitems
  cases hitems with
  | accepted => exact .accepted
  | rejected => exact .rejected

theorem Cursor.terminate_of_last (file : String)
    (hend : tokens.getLast?.map Token.kind = some .eof) : terminate file tokens = tokens :=
  if_pos hend

/-- The program that tokens elsewhere spell. -/
theorem Program.ofTokens_relocate (hend : tokens.getLast?.map Token.kind = some .eof)
    (hfile : ρ.stop ⟨0, file⟩ = ⟨0, file'⟩) :
    ofTokens (tokens.map (Token.relocate ρ)) file' =
      ((ofTokens tokens file).mapError (Diagnostic.relocate ρ)).map (relocate ρ) := by
  have hend' : (tokens.map (Token.relocate ρ)).getLast?.map Token.kind = some .eof := by
    rw [List.getLast?_map, Option.map_map]
    exact hend
  let c := Cursor.start file tokens
  let d := Cursor.start file' (tokens.map (Token.relocate ρ))
  have hecho : ∀ {ts c'}, c.Passes ts c' → Cursor.Echoes ρ c (ts ++ [c'.current]) d := by
    intro ts c' hpass
    refine ⟨Cursor.start_terminated _ _, ?_, ?_⟩
    · rw [Cursor.rest_start, Cursor.terminate_of_last file' hend',
        ← Cursor.terminate_of_last file hend, ← Cursor.rest_start, hpass.rest]
      exact ⟨c'.after.map (Token.relocate ρ), by simp [Cursor.rest]⟩
    · simp only [d, c, Cursor.lastPosition, Cursor.start_before, Cursor.start_file]
      exact hfile.symm
  have hreplays := Parser.program_replays (ρ := ρ) (m := d.remaining)
    (Cursor.start_terminated file tokens)
  have hread : read tokens file = Parser.program .standard c := rfl
  have hread' : read (tokens.map (Token.relocate ρ)) file' = Parser.program .standard d := rfl
  unfold ofTokens
  rw [hread, hread']
  change Parser.Replays ρ _ _ _ _ (Parser.program .standard c) at hreplays
  generalize Parser.program .standard c = r at hreplays
  cases hreplays with
  | read hpass hreplay =>
    obtain ⟨_, _, hrun⟩ := hreplay d (Nat.le_refl _) (hecho hpass)
    rw [hrun]
    rfl
  | stuck hpass hreplay =>
    obtain ⟨_, _, hrun⟩ := hreplay d (Nat.le_refl _) (hecho hpass)
    rw [hrun]
    rfl

theorem checkTokens_moves (hend : tokens.getLast?.map Token.kind = some .eof)
    (hfile : ρ.stop ⟨0, file⟩ = ⟨0, file'⟩) :
    Moves ρ (checkTokens tokens file) (checkTokens (tokens.map (Token.relocate ρ)) file') := by
  unfold checkTokens
  rw [Program.ofTokens_relocate hend hfile]
  cases Program.ofTokens tokens file with
  | error d => exact .rejected
  | ok p => exact p.check_moves

/-- A problem is reported where some token starts. -/
theorem exists_token_of_rejected {d : Diagnostic} {s : Session}
    (hend : tokens.getLast?.map Token.kind = some .eof)
    (h : checkTokens tokens file = .error (.rejected d) s) :
    ∃ t ∈ tokens, d.position = t.span.start := by
  obtain ⟨first, hfirst⟩ : ∃ t, t ∈ tokens :=
    List.exists_mem_of_ne_nil tokens (by rintro rfl; simp at hend)
  -- move everything but the starts of the tokens
  let starts := tokens.map fun t => t.span.start
  let ρ : Relocation := ⟨fun q => if q ∈ starts then q else first.span.start, id⟩
  have hstay : tokens.map (Token.relocate ρ) = tokens := by
    refine List.map_congr_left (g := id) (fun t ht => ?_) |>.trans (List.map_id tokens)
    have hstart : t.span.start ∈ starts := List.mem_map_of_mem ht
    simp [Token.relocate, Span.relocate, ρ, hstart]
  have hmoves := checkTokens_moves (ρ := ρ) hend (show ρ.stop ⟨0, file⟩ = ⟨0, file⟩ from rfl)
  rw [hstay, h] at hmoves
  obtain ⟨s', hrejected⟩ := hmoves.of_rejected
  have hposition : d.position = if d.position ∈ starts then d.position else first.span.start := by
    injection hrejected with hd
    injection hd with hd
    exact congrArg Diagnostic.position hd
  by_cases hmem : d.position ∈ starts
  · obtain ⟨t, ht, hstart⟩ := List.mem_map.1 hmem
    exact ⟨t, ht, hstart.symm⟩
  · rw [if_neg hmem] at hposition
    exact ⟨first, hfirst, hposition⟩

/-! ### Tokens at places of their own -/

/-- A place for each index. -/
def Position.mark (i : Nat) : Position := ⟨0, String.ofList (List.replicate i ' ')⟩

/-- The index that a place is for. -/
def Position.index (p : Position) : Nat := p.file.toList.length

@[simp] theorem Position.index_mark (i : Nat) : (mark i).index = i := by
  simp [mark, index]

/-- Tokens of given kinds and texts at places of their own. -/
def Token.template (words : List (TokenKind × String)) : List Token :=
  words.mapIdx fun i (kind, text) => ⟨kind, text, ⟨.mark i, .mark i⟩⟩

/-- Where the tokens of a template stand in a list.  What belongs to no token is the beginning of
the file. -/
def Relocation.ofTokens (tokens : List Token) (file : String) : Relocation where
  start p := (tokens[p.index]?.map fun t => t.span.start).getD ⟨0, file⟩
  stop p := (tokens[p.index]?.map fun t => t.span.stop).getD ⟨0, file⟩

/-- The kind and the text of a token. -/
def Token.word (t : Token) : TokenKind × String := (t.kind, t.text)

theorem Token.template_relocate (tokens : List Token) (file : String) :
    (template (tokens.map word)).map (relocate (.ofTokens tokens file)) = tokens := by
  refine List.ext_getElem? fun i => ?_
  simp only [template, List.getElem?_map, List.getElem?_mapIdx, Option.map_map]
  cases hi : tokens[i]? with
  | none => rfl
  | some t => simp [word, relocate, Span.relocate, Relocation.ofTokens, hi]

theorem Token.getLast?_template (hend : tokens.getLast?.map kind = some .eof) :
    (template (tokens.map word)).getLast?.map kind = some .eof := by
  rw [← template_relocate tokens "", List.getLast?_map, Option.map_map] at hend
  exact hend

theorem Token.exists_index_of_mem_template {words : List (TokenKind × String)} {t : Token}
    (h : t ∈ template words) : ∃ i, i < words.length ∧ t.span.start = .mark i := by
  obtain ⟨i, hi, rfl⟩ := List.mem_mapIdx.1 h
  exact ⟨i, hi, rfl⟩

theorem Relocation.ofTokens_start_mark {i : Nat} {t : Token} (h : tokens[i]? = some t) :
    (ofTokens tokens file).start (.mark i) = t.span.start := by
  simp [ofTokens, h]

theorem Relocation.ofTokens_stop_mark_length :
    (ofTokens tokens file).stop (.mark tokens.length) = ⟨0, file⟩ := by
  simp [ofTokens]

/-- A list of tokens is checked like its template. -/
theorem checkTokens_template (hend : tokens.getLast?.map Token.kind = some .eof) (file : String) :
    Moves (.ofTokens tokens file)
      (checkTokens (Token.template (tokens.map Token.word)) (Position.mark tokens.length).file)
      (checkTokens tokens file) := by
  have hmoves := checkTokens_moves (Token.getLast?_template hend)
    (show (Relocation.ofTokens tokens file).stop ⟨0, (Position.mark tokens.length).file⟩ = _ from
      Relocation.ofTokens_stop_mark_length)
  rwa [Token.template_relocate] at hmoves

/-! ### Sources -/

theorem Token.getLast?_place (file : String) (ls : List Lexeme) (offset : Nat) :
    (place file offset ls).getLast?.map Token.kind = some .eof := by
  induction ls generalizing offset with
  | nil => rfl
  | cons l ls ih =>
    rw [place]
    split
    · exact ih _
    · rw [List.getLast?_cons]
      have := ih (offset + Text.byteSize l.text)
      cases h : (place file (offset + Text.byteSize l.text) ls).getLast? with
      | none => simp [h] at this
      | some t => simpa [h] using this

theorem Token.getLast?_scan {source : String} (h : scan source file = .ok tokens) :
    tokens.getLast?.map Token.kind = some .eof := by
  unfold scan at h
  split at h
  · cases h
    exact getLast?_place file _ 0
  · cases h

/-- **Layout never matters.**  Two sources with tokens of the same kinds and texts, however they are
laid out and whatever their files are called, are both accepted, in the same session, with the same
nodes for types and the same declarations; or both are rejected with the same problem, reported
where the tokens of one index start. -/
theorem checkSource_layout (source₁ file₁ source₂ file₂ : String) (tokens₁ tokens₂ : List Token)
    (h₁ : Token.scan source₁ file₁ = .ok tokens₁) (h₂ : Token.scan source₂ file₂ = .ok tokens₂)
    (hwords : tokens₁.map (fun t => (t.kind, t.text)) = tokens₂.map fun t => (t.kind, t.text)) :
    (∃ s, checkSource source₁ file₁ = .ok () s ∧ checkSource source₂ file₂ = .ok () s) ∨
    ∃ (problem : Problem) (i : Nat) (t₁ t₂ : Token) (s₁ s₂ : Session),
      tokens₁[i]? = some t₁ ∧ tokens₂[i]? = some t₂ ∧
      checkSource source₁ file₁ = .error (.rejected ⟨problem, t₁.span.start⟩) s₁ ∧
      checkSource source₂ file₂ = .error (.rejected ⟨problem, t₂.span.start⟩) s₂ := by
  have hlength : tokens₁.length = tokens₂.length := by simpa using congrArg List.length hwords
  have hmoves₁ := checkTokens_template (Token.getLast?_scan h₁) file₁
  have hmoves₂ := checkTokens_template (Token.getLast?_scan h₂) file₂
  rw [show tokens₂.map Token.word = tokens₁.map Token.word from hwords.symm, ← hlength] at hmoves₂
  rw [checkSource_of_scan h₁, checkSource_of_scan h₂]
  generalize checkTokens tokens₁ file₁ = r₁, checkTokens tokens₂ file₂ = r₂ at hmoves₁ hmoves₂
  generalize hr : checkTokens (Token.template (tokens₁.map Token.word)) _ = r at hmoves₁ hmoves₂
  cases hmoves₁ with
  | accepted =>
    cases hmoves₂
    exact .inl ⟨_, rfl, rfl⟩
  | @rejected d _ s₁ =>
    obtain ⟨s₂, rfl⟩ := hmoves₂.of_rejected
    -- the template is rejected where one of its tokens starts, and that tells the index
    obtain ⟨t, ht, hposition⟩ :=
      exists_token_of_rejected (Token.getLast?_template (Token.getLast?_scan h₁)) hr
    obtain ⟨i, hi, hmark⟩ := Token.exists_index_of_mem_template ht
    rw [List.length_map] at hi
    have hi₁ := List.getElem?_eq_getElem hi
    have hi₂ := List.getElem?_eq_getElem (hlength ▸ hi)
    refine .inr ⟨d.problem, i, _, _, s₁, s₂, hi₁, hi₂, ?_, ?_⟩
    · rw [Diagnostic.relocate, hposition, hmark, Relocation.ofTokens_start_mark hi₁]
    · rw [Diagnostic.relocate, hposition, hmark, Relocation.ofTokens_start_mark hi₂]

/-- An assignment, written with and without a comment: it is rejected at its first token, and with a
declaration before it both ways of writing it are accepted in one session. -/
theorem checkSource_layout_comment :
    (∃ s₁ s₂,
      checkSource "x := 1;" "one" =
        .error (.rejected ⟨.undeclaredName "x", ⟨0, "one"⟩⟩) s₁ ∧
      checkSource "// two\nx:= 1 ;" "two" =
        .error (.rejected ⟨.undeclaredName "x", ⟨7, "two"⟩⟩) s₂) ∧
    ∃ s, checkSource "int x; x := 1;" "one" = .ok () s ∧
      checkSource "int x;// two\nx:= 1 ;" "two" = .ok () s := by
  constructor
  · have h₁ : Token.scan "x := 1;" "one" = .ok
        [⟨.identifier, "x", ⟨⟨0, "one"⟩, ⟨1, "one"⟩⟩⟩,
          ⟨.assignment, ":=", ⟨⟨2, "one"⟩, ⟨4, "one"⟩⟩⟩, ⟨.number, "1", ⟨⟨5, "one"⟩, ⟨6, "one"⟩⟩⟩,
          ⟨.semicolon, ";", ⟨⟨6, "one"⟩, ⟨7, "one"⟩⟩⟩, .endOfInput ⟨7, "one"⟩] := by
      decide +kernel
    have h₂ : Token.scan "// two\nx:= 1 ;" "two" = .ok
        [⟨.identifier, "x", ⟨⟨7, "two"⟩, ⟨8, "two"⟩⟩⟩,
          ⟨.assignment, ":=", ⟨⟨8, "two"⟩, ⟨10, "two"⟩⟩⟩,
          ⟨.number, "1", ⟨⟨11, "two"⟩, ⟨12, "two"⟩⟩⟩,
          ⟨.semicolon, ";", ⟨⟨13, "two"⟩, ⟨14, "two"⟩⟩⟩, .endOfInput ⟨14, "two"⟩] := by
      decide +kernel
    have hdiagnostic : Checked.diagnostic? (checkSource "x := 1;" "one") =
        some ⟨.undeclaredName "x", ⟨0, "one"⟩⟩ := by decide +kernel
    obtain ⟨s, hcheck, -⟩ | ⟨problem, i, t₁, t₂, s₁, s₂, ht₁, ht₂, hcheck₁, hcheck₂⟩ :=
      checkSource_layout _ _ _ _ _ _ h₁ h₂ rfl
    · rw [hcheck] at hdiagnostic
      cases hdiagnostic
    · rw [hcheck₁] at hdiagnostic
      obtain ⟨rfl, hstart⟩ := Diagnostic.mk.inj (Option.some.inj hdiagnostic)
      rcases i with _ | _ | _ | _ | _ | i <;> cases ht₁
      · cases ht₂
        exact ⟨s₁, s₂, hcheck₁, hcheck₂⟩
      -- the other tokens start elsewhere
      all_goals exact absurd hstart (by decide)
  · have h₁ : Token.scan "int x; x := 1;" "one" = .ok
        [⟨.intKw, "int", ⟨⟨0, "one"⟩, ⟨3, "one"⟩⟩⟩, ⟨.identifier, "x", ⟨⟨4, "one"⟩, ⟨5, "one"⟩⟩⟩,
          ⟨.semicolon, ";", ⟨⟨5, "one"⟩, ⟨6, "one"⟩⟩⟩, ⟨.identifier, "x", ⟨⟨7, "one"⟩, ⟨8, "one"⟩⟩⟩,
          ⟨.assignment, ":=", ⟨⟨9, "one"⟩, ⟨11, "one"⟩⟩⟩,
          ⟨.number, "1", ⟨⟨12, "one"⟩, ⟨13, "one"⟩⟩⟩,
          ⟨.semicolon, ";", ⟨⟨13, "one"⟩, ⟨14, "one"⟩⟩⟩, .endOfInput ⟨14, "one"⟩] := by
      decide +kernel
    have h₂ : Token.scan "int x;// two\nx:= 1 ;" "two" = .ok
        [⟨.intKw, "int", ⟨⟨0, "two"⟩, ⟨3, "two"⟩⟩⟩, ⟨.identifier, "x", ⟨⟨4, "two"⟩, ⟨5, "two"⟩⟩⟩,
          ⟨.semicolon, ";", ⟨⟨5, "two"⟩, ⟨6, "two"⟩⟩⟩,
          ⟨.identifier, "x", ⟨⟨13, "two"⟩, ⟨14, "two"⟩⟩⟩,
          ⟨.assignment, ":=", ⟨⟨14, "two"⟩, ⟨16, "two"⟩⟩⟩,
          ⟨.number, "1", ⟨⟨17, "two"⟩, ⟨18, "two"⟩⟩⟩,
          ⟨.semicolon, ";", ⟨⟨19, "two"⟩, ⟨20, "two"⟩⟩⟩, .endOfInput ⟨20, "two"⟩] := by
      decide +kernel
    have hnone : Checked.diagnostic? (checkSource "int x; x := 1;" "one") = none := by
      decide +kernel
    obtain haccepted | ⟨problem, i, t₁, t₂, s₁, s₂, -, -, hcheck, -⟩ :=
      checkSource_layout _ _ _ _ _ _ h₁ h₂ rfl
    · exact haccepted
    · rw [hcheck] at hnone
      cases hnone

end SimpleLang
