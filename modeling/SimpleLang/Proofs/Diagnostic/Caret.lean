import SimpleLang.Diagnostic.Report
import SimpleLang.Proofs.Diagnosis
import SimpleLang.Proofs.Layout
import SimpleLang.Proofs.Source.Lines
import Mathlib.Data.List.DropRight

/-!
# Where the caret stands

The caret of a report stands under a line that is shown without its indentation.  It stands as many
characters to the right as the text between the indentation and the place that is reported has
**bytes**, so it is under the character at that place exactly if all characters before it take one
byte each (`checkSource_caret`).

What is reported stands at the beginning of a token or where none begins, and no comment comes before
it on its line.  So every character before it on its line is white space or takes one byte
(`Lexeme.Splits.plain_before`): a caret can only be misplaced by white space of more bytes.
-/

namespace SimpleLang

/-! ### Bytes and characters -/

namespace Text

variable {cs : List Char}

theorem length_le_byteSize (cs : List Char) : cs.length ≤ byteSize cs := by
  induction cs with
  | nil => simp
  | cons c cs ih =>
    have hpos := c.utf8Size_pos
    rw [byteSize_cons, List.length_cons]
    omega

/-- There are as many bytes as characters exactly if each character takes one byte. -/
theorem byteSize_eq_length_iff : byteSize cs = cs.length ↔ ∀ c ∈ cs, c.utf8Size = 1 := by
  induction cs with
  | nil => simp
  | cons c cs ih =>
    have hpos := c.utf8Size_pos
    have hle := length_le_byteSize cs
    rw [List.forall_mem_cons, ← ih, byteSize_cons, List.length_cons]
    omega

theorem trimEnd_prefix (cs : List Char) : trimEnd cs <+: cs :=
  List.rdropWhile_prefix isWhiteSpace cs

theorem toList_pushn (s : String) (c : Char) (n : Nat) :
    (s.pushn c n).toList = s.toList ++ List.replicate n c := by
  induction n with
  | zero => simp [String.pushn, Nat.repeat]
  | succ n ih =>
    have hpush : s.pushn c (n + 1) = (s.pushn c n).push c := rfl
    rw [hpush, String.toList_push, ih, List.append_assoc, List.replicate_succ']

end Text

/-! ### What stands before a token on its line -/

namespace Lexeme

variable {c x : Char} {cs rest left u v : List Char} {l : Lexeme} {ls ls' : List Lexeme}

/-- The character takes one byte, or it is white space. -/
def Plain (c : Char) : Prop := c.utf8Size = 1 ∨ Text.isWhiteSpace c = true

theorem plain_of_toNat_le (h : c.toNat ≤ 127) : Plain c :=
  .inl (Char.utf8Size_eq_one_iff.2 (UInt32.le_iff_toNat_le.2 h))

theorem plain_of_isDigit (h : c.isDigit = true) : Plain c := by
  have := toNat_of_isDigit h
  exact plain_of_toNat_le (by omega)

theorem plain_of_isWord {w : List Char} (h : IsWord w) : ∀ c ∈ w, Plain c := by
  obtain ⟨first, rest, rfl, hfirst, hrest⟩ := h
  have hstart : ∀ c, startsWord c = true → Plain c := by
    intro c hc
    have := toNat_of_startsWord hc
    exact plain_of_toNat_le (by omega)
  refine List.forall_mem_cons.2 ⟨hstart first hfirst, fun c hc => ?_⟩
  have hcontinues := hrest c hc
  rw [continuesWord_eq, Bool.or_eq_true] at hcontinues
  rcases hcontinues with hword | hdigit
  · exact hstart c hword
  · exact plain_of_isDigit hdigit

theorem plain_of_symbol {s : List Char × TokenKind} (hs : s ∈ TokenKind.symbols) :
    ∀ c ∈ s.1, Plain c := by
  -- as a Boolean of the table, so that nothing searches through all characters
  have htable : ∀ s ∈ TokenKind.symbols, (s.1.all fun c => c.utf8Size == 1) = true := by decide
  intro c hc
  exact .inl (eq_of_beq (List.all_eq_true.1 (htable s hs) c hc))

/-- Only comments hold other characters, and they go on to the end of the line. -/
theorem Precedes.plain_or_stops (h : l.Precedes rest) :
    (∀ c ∈ l.text, Plain c) ∨ Stops continuesComment rest := by
  cases h with
  | keyword hw _ _ => exact .inl (plain_of_isWord hw)
  | identifier hw _ _ => exact .inl (plain_of_isWord hw)
  | number _ hds _ => exact .inl fun c hc => plain_of_isDigit (hds c hc)
  | symbol hm _ => exact .inl (plain_of_symbol hm)
  | space _ hws _ => exact .inl fun c hc => .inr (hws c hc)
  | comment _ hrest => exact .inr hrest

/-- What stands before a place that is not the end of a line, after the last newline before it, takes
one byte each or is white space. -/
theorem Splits.plain_before (h : Splits cs ls left) (hne : left ≠ [])
    (hleft : Stops (· == '\n') left) (htext : ls.flatMap text = u ++ x :: v) (hv : '\n' ∉ v) :
    Plain x := by
  induction h generalizing u v with
  | nil => simp at htext
  | @cons l rest ls left hl hrest ih =>
    rw [List.flatMap_cons, List.append_eq_append_iff] at htext
    rcases htext with ⟨u', rfl, hlater⟩ | ⟨w, hwithin, hv'⟩
    · exact ih hne hleft hlater hv
    · cases w with
      | nil => exact ih hne hleft (u := []) hv'.symm hv
      | cons y w =>
        rw [List.cons_append] at hv'
        obtain ⟨rfl, rfl⟩ := List.cons.inj hv'
        rcases hl.plain_or_stops with hplain | hstops
        · exact hplain x (by simp [hwithin])
        · -- a comment is followed by a newline, which would come after `x`
          rw [hrest.text_eq] at hstops
          cases hlater : ls.flatMap text with
          | nil =>
            obtain ⟨c, left, rfl⟩ := List.exists_cons_of_ne_nil hne
            rw [hlater, List.nil_append, stops_cons] at hstops
            obtain rfl : c = '\n' := by simpa [continuesComment] using hstops
            simp [stops_cons] at hleft
          | cons c later =>
            rw [hlater, List.cons_append, stops_cons] at hstops
            obtain rfl : c = '\n' := by simpa [continuesComment] using hstops
            simp [hlater] at hv

/-- The first lexemes of a text leave those that come after them. -/
theorem Splits.until (h : Splits cs (ls ++ ls') left) :
    Splits cs ls (ls'.flatMap text ++ left) := by
  induction ls generalizing cs with
  | nil => exact h.text_eq ▸ .nil
  | cons l ls ih =>
    cases h with
    | cons hl hrest => exact .cons hl (ih hrest)

end Lexeme

/-- What is reported about a source stands after some of its lexemes. -/
theorem exists_splits_of_checkSource {source file : String} {f : Failure Diagnostic} {s : Session}
    (h : checkSource source file = .error f s) : ∃ d ls left, f = .rejected d ∧
      Lexeme.Splits source.toList ls left ∧ d.position = .ofNat file (Lexeme.byteSize ls) := by
  cases hscan : Token.scan source file with
  | error d =>
    obtain ⟨ls, c, rest, hls, -, rfl⟩ := Token.scan_eq_error_iff.1 hscan
    unfold checkSource at h
    rw [hscan] at h
    cases h
    exact ⟨_, ls, c :: rest, rfl, hls, rfl⟩
  | ok tokens =>
    obtain ⟨d, rfl, before, t, after, rfl, hposition, -⟩ := pointsInto_of_checkSource hscan h
    obtain ⟨ls, hls, htokens⟩ := Token.scan_eq_ok_iff.1 hscan
    have ht : t ∈ Token.place file 0 ls := htokens ▸ by simp
    rw [Token.place_eq, List.mem_append, List.mem_singleton, Nat.zero_add] at ht
    rcases ht with ht | rfl
    · obtain ⟨first, l, later, rfl, hl⟩ := Token.exists_of_mem_placed ht
      obtain ⟨kind, -, rfl⟩ := Option.map_eq_some_iff.1 hl
      exact ⟨d, first, _, rfl, hls.until, by rw [hposition, Nat.zero_add]⟩
    · exact ⟨d, ls, [], rfl, hls, hposition⟩

/-! ### The line that is shown -/

namespace Excerpt

theorem isIndent_utf8Size {c : Char} (h : isIndent c = true) : c.utf8Size = 1 := by
  simp only [isIndent, Bool.or_eq_true, beq_iff_eq] at h
  rcases h with rfl | rfl <;> rfl

/-- The indentation has as many bytes as characters. -/
theorem byteSize_indent (cs : List Char) :
    Text.byteSize (cs.takeWhile isIndent) = (cs.takeWhile isIndent).length :=
  Text.byteSize_eq_length_iff.2 fun _ hc => isIndent_utf8Size (List.mem_takeWhile_imp hc)

theorem dropWhile_append_newline (cs : List Char) :
    (cs ++ ['\n']).dropWhile isIndent = cs.dropWhile isIndent ++ ['\n'] := by
  rw [List.dropWhile_append]
  split
  · rename_i hempty
    rw [List.isEmpty_iff.1 hempty]
    rfl
  · rfl

/-- A newline is not shown. -/
theorem newline_not_mem_shown {cs : List Char} {pieces : List (List Char)} {l : Line}
    (h : Line.Cut cs pieces) (hl : l.text ∈ pieces) : '\n' ∉ (ofLine l).shown := by
  have hshown : ∀ ds : List Char, '\n' ∉ ds → '\n' ∉ Text.trimEnd (ds.dropWhile isIndent) := by
    intro ds hds hmem
    exact hds ((List.dropWhile_suffix _).subset ((Text.trimEnd_prefix _).subset hmem))
  change '\n' ∉ Text.trimEnd (l.text.dropWhile isIndent)
  rcases h.newline_of_mem hl with hnot | ⟨ds, hds, hnot⟩
  · exact hshown _ hnot
  · -- the newline at the end is white space
    have htrim : Text.trimEnd (ds.dropWhile isIndent ++ ['\n']) =
        Text.trimEnd (ds.dropWhile isIndent) :=
      List.rdropWhile_concat_pos Text.isWhiteSpace _ '\n' (by decide)
    rw [hds, dropWhile_append_newline, htrim]
    exact hshown ds hnot

/-- The characters before the caret of an underline. -/
def beforeCaret (underline : String) : List Char := underline.toList.takeWhile (· != '^')

theorem length_beforeCaret (e : Excerpt) : (beforeCaret e.underline).length = e.dashes := by
  have hlist : e.underline.toList = List.replicate e.dashes '-' ++ ['^'] := by
    rw [underline, String.toList_append, Text.toList_pushn]
    rfl
  rw [beforeCaret, hlist, Lexeme.takeWhile_of_stops (by simp) (Lexeme.stops_cons.2 rfl),
    List.length_replicate]

end Excerpt

/-- The place in a line is that of a character of it that is shown, the one between `before` and
`after`. -/
structure Line.Keeps (l : Line) (before : List Char) (c : Char) (after : List Char) : Prop where
  shown : (Excerpt.ofLine l).shown = before ++ c :: after
  column : l.column = Text.byteSize (l.text.takeWhile Excerpt.isIndent ++ before)

namespace Line.Keeps

variable {l : Line} {before after : List Char} {c : Char} {source : String} {offset : UInt32}

/-- As many dashes are drawn as the text before the character has bytes. -/
theorem dashes_eq (h : l.Keeps before c after) :
    (Excerpt.ofLine l).dashes = Text.byteSize before := by
  have hcolumn := h.column
  rw [Text.byteSize_append, Excerpt.byteSize_indent] at hcolumn
  change l.column - (l.text.takeWhile Excerpt.isIndent).length = _
  omega

/-- The character stands at the offset in the source, and there is no newline between it and the
beginning of its line. -/
theorem exists_source (h : l.Keeps before c after) (hline : Line.find? source offset = some l) :
    ∃ front rest, source.toList = (front ++ before) ++ c :: rest ∧
      Text.dropBytes? offset.toNat source.toList = some (c :: rest) ∧
      '\n' ∉ before ∧ c ≠ '\n' := by
  obtain ⟨lines, later, hcut, -, hcolumn, -⟩ := Line.exists_of_find? hline
  have hnewline := Excerpt.newline_not_mem_shown hcut (l := l) (by simp)
  rw [h.shown, List.mem_append, List.mem_cons, not_or, not_or] at hnewline
  obtain ⟨more, hmore⟩ := Text.trimEnd_prefix (l.text.dropWhile Excerpt.isIndent)
  have hshown : Text.trimEnd (l.text.dropWhile Excerpt.isIndent) = before ++ c :: after := h.shown
  have htext : l.text = l.text.takeWhile Excerpt.isIndent ++ (before ++ c :: after ++ more) := by
    rw [← hshown, hmore, List.takeWhile_append_dropWhile]
  let front := lines.flatten ++ l.text.takeWhile Excerpt.isIndent
  let rest := after ++ (more ++ later.flatten)
  have hsource : source.toList = (front ++ before) ++ c :: rest := by
    rw [← hcut.flatten_eq, List.flatten_append, List.flatten_cons]
    nth_rewrite 1 [htext]
    simp [front, rest]
  have hoffset : Text.byteSize (front ++ before) = offset.toNat := by
    rw [← hcolumn, h.column]
    simp [front]
  refine ⟨front, rest, hsource, ?_, hnewline.1, Ne.symm hnewline.2.1⟩
  rw [hsource, ← hoffset, Text.dropBytes?_append]

end Line.Keeps

/-! ### The report -/

theorem Diagnostic.report?_of_line {d : Diagnostic} {source : String} {l : Line}
    (h : Line.find? source d.position.offset = some l) (file : String) :
    d.report? source file = if (Excerpt.ofLine l).Fits then
      some (d.headline ++ "-> " ++ file ++ "\n" ++ (Excerpt.ofLine l).text) else none := by
  unfold Diagnostic.report? Excerpt.find?
  rw [h]
  rfl

/-- **The caret counts bytes.**  If what is wrong with a source is reported at a character of the
line that is shown, there stand as many characters before the caret as there are bytes between the
indentation and that character.  So the caret is under the character exactly if each of the
characters before it takes one byte.  In a source of fewer than 2^32 bytes those that take more are
white space. -/
theorem checkSource_caret (source file report : String) (d : Diagnostic) (s : Session) (l : Line)
    (before after : List Char) (c : Char)
    (h : checkSource source file = .error (.rejected d) s)
    (hline : Line.find? source d.position.offset = some l) (hkeeps : l.Keeps before c after)
    (hreport : d.report? source file = some report) :
    let underline := (Excerpt.ofLine l).underline
    report = d.headline ++ "-> " ++ file ++ "\n" ++ (Excerpt.ofLine l).text ∧
    (∃ rest, Text.dropBytes? d.position.offset.toNat source.toList = some (c :: rest)) ∧
    (Excerpt.beforeCaret underline).length = Text.byteSize before ∧
    ((Excerpt.beforeCaret underline).length = before.length ↔ ∀ x ∈ before, x.utf8Size = 1) ∧
    (Text.byteSize source.toList < UInt32.size →
      ∀ x ∈ before, x.utf8Size = 1 ∨ Text.isWhiteSpace x = true) := by
  obtain ⟨front, rest, hsource, hdrop, hnewline, hc⟩ := hkeeps.exists_source hline
  have hcaret := Excerpt.length_beforeCaret (Excerpt.ofLine l)
  rw [hkeeps.dashes_eq] at hcaret
  refine ⟨?_, ⟨rest, hdrop⟩, hcaret, ?_, fun hsize x hx => ?_⟩
  · rw [Diagnostic.report?_of_line hline, Option.ite_none_right_eq_some] at hreport
    exact (Option.some.inj hreport.2).symm
  · rw [hcaret]
    exact Text.byteSize_eq_length_iff
  · obtain ⟨_, ls, left, ⟨⟩, hls, hposition⟩ := exists_splits_of_checkSource h
    obtain ⟨-, hleft⟩ := Position.dropBytes?_ofNat file hsize hls.text_eq
    -- the lexemes end where the character stands
    obtain rfl : left = c :: rest := by
      rw [hposition] at hdrop
      exact Option.some.inj (hleft.symm.trans hdrop)
    have htext := List.append_cancel_right (hls.text_eq.symm.trans hsource)
    obtain ⟨u, v, rfl⟩ := List.append_of_mem hx
    exact hls.plain_before (by simp) (Lexeme.stops_cons.2 (by simpa using hc))
      (htext.trans (List.append_assoc _ _ _).symm) fun hv => hnewline (by simp [hv])

/-- A line that is shown without its indentation. -/
theorem checkSource_caret_indented :
    let source := "int x;\n  x := true;\n"
    let d : Diagnostic := ⟨.typeMismatch "int" "bool", ⟨14, "f"⟩⟩
    let l : Line := ⟨2, "  x := true;\n".toList, 7⟩
    let report := "Error: TypeMismatch (Expected type `int`, received `bool`)\n-> f\n" ++
      "  |\n2 | x := true;\n  | -----^\n"
    (∃ s, checkSource source "f" = .error (.rejected d) s) ∧ Line.find? source 14 = some l ∧
      l.Keeps "x := ".toList 't' "rue;".toList ∧ d.report? source "f" = some report ∧
      (Excerpt.beforeCaret (Excerpt.ofLine l).underline).length = 5 := by
  intro source d l report
  obtain ⟨s, h⟩ := Checked.exists_of_diagnostic?
    (by decide +kernel : Checked.diagnostic? (checkSource source "f") = some d)
  have hline : Line.find? source 14 = some l := by decide +kernel
  have hkeeps : l.Keeps "x := ".toList 't' "rue;".toList := ⟨by decide +kernel, by decide +kernel⟩
  have hreport : d.report? source "f" = some report := by decide +kernel
  exact ⟨⟨s, h⟩, hline, hkeeps, hreport,
    (checkSource_caret source "f" report d s l _ _ _ h hline hkeeps hreport).2.2.1⟩

/-- **The caret can be misplaced.**  After a blank of two bytes it is one character too far to the
right, under the second letter of the word that it is about. -/
theorem checkSource_caret_after_wideBlank :
    let source := "int x;\u00a0x := true;"
    let d : Diagnostic := ⟨.typeMismatch "int" "bool", ⟨13, "f"⟩⟩
    let l : Line := ⟨1, source.toList, 13⟩
    let before := "int x;\u00a0x := ".toList
    (∃ s, checkSource source "f" = .error (.rejected d) s) ∧ Line.find? source 13 = some l ∧
      l.Keeps before 't' "rue;".toList ∧
      d.report? source "f" = some ("Error: TypeMismatch (Expected type `int`, received `bool`)\n" ++
        "-> f\n  |\n1 | int x;\u00a0x := true;\n  | -------------^\n") ∧
      before.length = 12 ∧ (Excerpt.beforeCaret (Excerpt.ofLine l).underline).length = 13 := by
  intro source d l before
  exact ⟨Checked.exists_of_diagnostic?
    (by decide +kernel : Checked.diagnostic? (checkSource source "f") = some d),
    by decide +kernel, ⟨by decide +kernel, by decide +kernel⟩, by decide +kernel,
    by decide +kernel, by decide +kernel⟩

end SimpleLang
