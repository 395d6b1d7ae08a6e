import SimpleLang.Proofs.Check.Reports
import SimpleLang.Proofs.Parse.Complaint
import SimpleLang.Proofs.Token.Placing

/-!
# Every diagnosis points at the right place

Whatever is wrong with a source, it is reported at a place in it: at the character that begins no
lexeme, or where a token starts, which may be the end (`checkSource_error_locates`).  The token fits
the problem: a name that is not declared stands there, for instance.  So there is a line to show.
-/

namespace SimpleLang

open Phrase

variable {tokens ts : List Token} {file source : String} {d : Diagnostic} {e : Token}

/-- A parser reports a token, where it starts; if it is a numeral, that is a number. -/
theorem Program.pointsInto_of_ofTokens (he : e.kind = .eof)
    (h : Program.ofTokens (ts ++ [e]) file = .error d) : d.PointsInto (ts ++ [e]) := by
  have hreading := Parser.program_reading (Cursor.start_terminated file (ts ++ [e]))
  have hnumber := Parser.program_complains .standard (Cursor.start file (ts ++ [e]))
  have hrest := Cursor.rest_start file (ts ++ [e])
  rw [Cursor.terminate_append file ts he] at hrest
  have hread : read (ts ++ [e]) file =
    Parser.program .standard (Cursor.start file (ts ++ [e])) := rfl
  unfold Program.ofTokens at h
  rw [hread] at h
  generalize hr : Parser.program .standard (Cursor.start file (ts ++ [e])) = r at h hreading
  cases hreading with
  | read => cases h
  | @stuck us _ c hpass habout _ =>
    cases h
    rw [← hrest, hpass.rest]
    refine ⟨us, c.current, c.after, rfl, habout.position, ?_⟩
    have htext := habout.text
    have hkind := hnumber _ _ hr
    cases hproblem : d.problem with
    | numberParseError text =>
      rw [hproblem] at htext
      exact ⟨hkind text hproblem, (Option.some.inj htext).symm⟩
    | unrecognisedToken | unexpectedToken | unexpectedTokenDetailed => trivial
    | _ =>
      rw [hproblem] at htext
      cases htext

/-- A check reports what fits the tokens that the program was read from. -/
theorem Program.pointsInto_of_check {p : Program} {s : Session} (he : e.kind = .eof)
    (hts : ∀ t ∈ ts, t.kind ≠ .eof) (hread : Program.ofTokens (ts ++ [e]) file = .ok p)
    (h : p.check = .error (.rejected d) s) : d.PointsInto (ts ++ [e]) := by
  obtain ⟨items, hitems, rfl⟩ := (ofTokens_eq_ok_iff hts he).1 hread
  have hreports := hitems.reports (List.prefix_append ts [e]).isInfix Session.wellFormed_initial
  change Checker.program (.ofItems items) .initial = .error (.rejected d) s at h
  unfold Checker.program at h
  split at h
  · cases h
  · rename_i d' t hrun
    cases h
    exact hreports _ _ hrun
  · cases h

/-- Nothing is wrong with an empty text. -/
theorem checkSource_empty (file : String) : ∃ s, checkSource "" file = .ok () s := by
  have hscan : Token.scan "" file = .ok (Token.place file 0 []) :=
    Token.scan_eq_ok_iff.2 ⟨[], .nil, rfl⟩
  unfold checkSource
  rw [hscan]
  exact ⟨_, rfl⟩

/-- What is wrong with a source that has tokens is reported at one of them. -/
theorem pointsInto_of_checkSource {f : Failure Diagnostic} {s : Session}
    (hscan : Token.scan source file = .ok tokens) (h : checkSource source file = .error f s) :
    ∃ d, f = .rejected d ∧ d.PointsInto tokens := by
  obtain ⟨ls, hls, rfl⟩ := Token.scan_eq_ok_iff.1 hscan
  unfold checkSource at h
  rw [hscan] at h
  dsimp only at h
  rw [Token.place_eq] at h ⊢
  split at h
  · rename_i d hread
    cases h
    exact ⟨d, rfl, Program.pointsInto_of_ofTokens rfl hread⟩
  · rename_i p hread
    have hne : ∀ t ∈ Token.placed file 0 ls, t.kind ≠ .eof :=
      fun t => Token.kind_ne_eof_of_mem_placed hls.kind_ne_eof
    rcases p.check_cases with ⟨_, _, hok, -, -⟩ | ⟨⟨d, s', herror⟩, -, -⟩
    · cases hok.symm.trans h
    · cases herror.symm.trans h
      exact ⟨d, rfl, Program.pointsInto_of_check rfl hne hread herror⟩

/-- There is a line to show for every offset in a source that something is wrong with. -/
theorem isSome_find?_of_checkSource {f : Failure Diagnostic} {s : Session} {offset : UInt32}
    (h : checkSource source file = .error f s)
    (hle : offset.toNat ≤ Text.byteSize source.toList) : (Line.find? source offset).isSome := by
  refine (Line.isSome_find?_iff source offset).2 ⟨fun hnil => ?_, hle⟩
  obtain ⟨s', hok⟩ := checkSource_empty file
  obtain rfl := String.toList_eq_nil_iff.1 hnil
  cases hok.symm.trans h

/-- The diagnostic is about a character of the source that begins no lexeme, and the rest of the
source begins with that character. -/
def Diagnostic.AtCharacter (d : Diagnostic) (source file : String) (rest : List Char) : Prop :=
  ∃ c after, rest = c :: after ∧ d.problem = .unrecognisedToken (String.singleton c) ∧
    Lexeme.first? rest = none ∧ Token.scan source file = .error d

/-- The diagnostic is about a token of the source that fits the problem, and the rest of the source
begins with that token; the end of input has nothing after it. -/
def Diagnostic.AtToken (d : Diagnostic) (source file : String) (rest : List Char) : Prop :=
  ∃ before t after, Token.scan source file = .ok (before ++ t :: after) ∧
    d.position = t.span.start ∧ d.problem.Fits t after ∧
    (t.kind = .eof ∧ rest = [] ∨ t.kind ≠ .eof ∧ t.text.toList <+: rest)

/-- The diagnostic has a place in the source. -/
structure Diagnostic.Locates (d : Diagnostic) (source file : String) : Prop where
  inFile : d.position.file = file
  le : d.position.offset.toNat ≤ Text.byteSize source.toList
  /-- The offset is that of a character or of the end, and something stands there to complain
  about. -/
  place : ∃ rest, Text.dropBytes? d.position.offset.toNat source.toList = some rest ∧
    (d.AtCharacter source file rest ∨ d.AtToken source file rest)
  line : (Line.find? source d.position.offset).isSome

/-- **Every diagnosis points at the right place.**  What is wrong with a source of fewer than 2^32
bytes is reported in its file, at a character or at the end, so that there is a line to show.
Either the character begins no lexeme, or a token starts there and fits the problem. -/
theorem checkSource_error_locates (source file : String)
    (hsize : Text.byteSize source.toList < UInt32.size) (f : Failure Diagnostic) (s : Session)
    (h : checkSource source file = .error f s) :
    ∃ d, f = .rejected d ∧ d.Locates source file := by
  cases hscan : Token.scan source file with
  | error d =>
    obtain ⟨ls, c, rest, hls, hnone, hd⟩ := Token.scan_eq_error_iff.1 hscan
    have hf : f = .rejected d := by
      unfold checkSource at h
      rw [hscan] at h
      cases h
      rfl
    obtain ⟨hle, hdrop⟩ := Position.dropBytes?_ofNat file hsize hls.text_eq
    subst hd
    exact ⟨_, hf, rfl, hle, ⟨c :: rest, hdrop, .inl ⟨c, rest, rfl, rfl, hnone, hscan⟩⟩,
      isSome_find?_of_checkSource h hle⟩
  | ok tokens =>
    obtain ⟨d, rfl, before, t, after, rfl, hposition, hfits⟩ := pointsInto_of_checkSource hscan h
    obtain ⟨front, rest, hsource, hstart, hkind⟩ :=
      Token.exists_place_of_mem_scan (t := t) hscan (by simp)
    obtain ⟨hle, hdrop⟩ := Position.dropBytes?_ofNat file hsize hsource
    rw [← hstart, ← hposition] at hle hdrop
    have hfile : d.position.file = file := by
      rw [hposition, hstart]
      rfl
    have hrest : t.kind = .eof ∧ rest = [] ∨ t.kind ≠ .eof ∧ t.text.toList <+: rest := by
      rcases hkind with heof | ⟨more, hne, rfl, -⟩
      · exact .inl heof
      · exact .inr ⟨hne, List.prefix_append _ _⟩
    exact ⟨d, rfl, hfile, hle,
      ⟨rest, hdrop, .inr ⟨before, t, after, hscan, hposition, hfits, hrest⟩⟩,
      isSome_find?_of_checkSource h hle⟩

/-- A name is declared twice, after a comment with a character of two bytes: the offset of the
second declaration counts bytes. -/
theorem checkSource_error_locates_twice :
    ∃ d s, checkSource "// \u00e9\nvar x;\nvar x;" "f" = .error (.rejected d) s ∧
      d = ⟨.duplicateDeclaration "x", ⟨13, "f"⟩⟩ ∧
      d.Locates "// \u00e9\nvar x;\nvar x;" "f" := by
  have hrun : (match checkSource "// \u00e9\nvar x;\nvar x;" "f" with
      | .error (.rejected d) _ => decide (d = ⟨.duplicateDeclaration "x", ⟨13, "f"⟩⟩)
      | _ => false) = true := by decide +kernel
  rcases hr : checkSource "// \u00e9\nvar x;\nvar x;" "f" with ⟨_, s⟩ | ⟨f, s⟩
  · rw [hr] at hrun
    cases hrun
  · obtain ⟨d, rfl, hd⟩ := checkSource_error_locates _ "f" (by decide +kernel) f s hr
    rw [hr] at hrun
    exact ⟨d, s, rfl, of_decide_eq_true hrun, hd⟩

end SimpleLang
