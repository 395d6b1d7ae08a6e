import SimpleLang.Proofs.Diagnostic.Caret
import Mathlib.Data.Nat.Digits.Defs

/-!
# Which reports can be written

A report looks for a line from the front, counts from where it begins, drops the bytes of its
indentation, and sets a bar and a caret to the right of fields of some width.  Each of these can go
wrong: a count below zero, a cut through a character, a field that is too wide.  `Diagnostic.draw?`
makes these checks one by one, and fails if one of them fails.

For a source of fewer than 2^32 bytes only the last one can fail, and only for the underline
(`Diagnostic.draw?_eq`).  So whatever is wrong with such a source is reported in full, with its line
and an underline, exactly if fewer than 65535 bytes stand between the indentation of the line and the
place that is reported (`checkSource_report`).
-/

namespace SimpleLang

/-! ### Writing with all checks -/

/-- A text at the right end of a field, unless the field is too wide. -/
def Text.alignRight? (fill : Char) (width : Nat) (text : String) : Option String :=
  if width ≤ Excerpt.widestUnderline then some ("".pushn fill (width - text.length) ++ text)
  else none

/-- The excerpt for a place in a line, if its fields are not too wide and the indentation ends
between two characters. -/
def Excerpt.draw? (l : Line) : Option String := do
  let label := toString l.number
  let indent := (l.text.takeWhile isIndent).length
  let gutter ← Text.alignRight? ' ' (label.length + 2) "|"
  let kept ← Text.dropBytes? indent l.text
  let underline ← Text.alignRight? '-' (l.column - indent + 1) "^"
  return gutter ++ "\n" ++ (label ++ " | " ++ String.ofList (Text.trimEnd kept) ++ "\n") ++
    (gutter ++ " " ++ underline ++ "\n")

/-- The report on a diagnostic, if nothing goes wrong on the way. -/
def Diagnostic.draw? (d : Diagnostic) (source file : String) : Option String := do
  let heading := d.headline ++ "-> " ++ file ++ "\n"
  let line ← Line.search source d.position.offset
  line.elim (some heading) fun l => (Excerpt.draw? l).map (heading ++ ·)

/-- The indentation ends between two characters. -/
theorem Excerpt.dropBytes?_indent (cs : List Char) :
    Text.dropBytes? (cs.takeWhile isIndent).length cs = some (cs.dropWhile isIndent) := by
  have hdrop := Text.dropBytes?_append (cs.takeWhile isIndent) (cs.dropWhile isIndent)
  rwa [List.takeWhile_append_dropWhile, byteSize_indent] at hdrop

/-- A line with a number that is not too long can be drawn if its underline can. -/
theorem Excerpt.draw?_eq {l : Line} (h : (toString l.number).length + 2 ≤ widestUnderline) :
    draw? l = if (ofLine l).Fits then some (ofLine l).text else none := by
  unfold draw? Text.alignRight?
  dsimp only
  rw [if_pos h, dropBytes?_indent]
  by_cases hfits : (ofLine l).Fits
  · have hwidth : l.column - (l.text.takeWhile isIndent).length + 1 ≤ widestUnderline := hfits
    rw [if_pos hfits, if_pos hwidth]
    rfl
  · have hwidth : ¬ l.column - (l.text.takeWhile isIndent).length + 1 ≤ widestUnderline := hfits
    rw [if_neg hfits, if_neg hwidth]
    rfl

/-- A line has a number of at most one more than there are bytes. -/
theorem Line.number_le {content : String} {offset : UInt32} {l : Line}
    (h : Line.find? content offset = some l) :
    l.number ≤ 1 + Text.byteSize content.toList := by
  obtain ⟨before, after, hcut, hnumber, -, -⟩ := Line.exists_of_find? h
  have hbytes : Text.byteSize before.flatten ≤ Text.byteSize content.toList := by
    rw [← hcut.flatten_eq, List.flatten_append, Text.byteSize_append]
    exact Nat.le_add_right _ _
  have hcount : before.length ≤ before.flatten.length := by
    rw [← hcut.count_newline]
    exact List.count_le_length
  have hlength := Text.length_le_byteSize before.flatten
  omega

/-- The number of a line of a source of fewer than 2^32 bytes has at most ten digits. -/
theorem Line.length_number_le {content : String} {offset : UInt32} {l : Line}
    (hsize : Text.byteSize content.toList < UInt32.size)
    (h : Line.find? content offset = some l) : (toString l.number).length ≤ 10 := by
  have hle := Line.number_le h
  have hsize' : UInt32.size = 4294967296 := rfl
  exact Nat.repr_length l.number 10 (by decide) (by omega)

/-- **Nothing goes wrong but a long underline.** -/
theorem Diagnostic.draw?_eq (d : Diagnostic) {source : String}
    (hsize : Text.byteSize source.toList < UInt32.size) (file : String) :
    d.draw? source file = d.report? source file := by
  unfold Diagnostic.draw?
  rw [Line.search_eq]
  cases hline : Line.find? source d.position.offset with
  | none =>
    unfold Diagnostic.report? Excerpt.find?
    rw [hline]
    rfl
  | some l =>
    have hlabel := Line.length_number_le hsize hline
    have hwidest : Excerpt.widestUnderline = 65535 := rfl
    rw [report?_of_line hline]
    change (Excerpt.draw? l).map _ = _
    rw [Excerpt.draw?_eq (by omega)]
    split <;> rfl

/-! ### Reports on sources -/

/-- **What is wrong is reported in full unless it stands too far to the right.**  Whatever is wrong
with a source of fewer than 2^32 bytes, there is a line to show, and the report is written without
any of the checks failing, with its headline, the file, a gutter, the line and an underline, exactly
if fewer than 65535 bytes stand between the indentation of the line and the place that is reported.
Otherwise there is no report.  So there is one if no line of the source is that long. -/
theorem checkSource_report (source file : String)
    (hsize : Text.byteSize source.toList < UInt32.size) (f : Failure Diagnostic) (s : Session)
    (h : checkSource source file = .error f s) : ∃ d l, f = .rejected d ∧
      Line.find? source d.position.offset = some l ∧
      d.report? source file = d.draw? source file ∧
      let e := Excerpt.ofLine l
      (d.report? source file = some (d.headline ++ ("-> " ++ file ++ "\n") ++ (e.gutter ++ "\n") ++
        (e.label ++ " | " ++ String.ofList e.shown ++ "\n") ++
        (e.gutter ++ " " ++ e.underline ++ "\n")) ↔ e.dashes < 65535) ∧
      (d.report? source file = none ↔ 65535 ≤ e.dashes) ∧
      ((∀ piece ∈ Line.split source.toList, Text.byteSize piece < 65535) → e.dashes < 65535) := by
  obtain ⟨d, ls, left, rfl, hls, hposition⟩ := exists_splits_of_checkSource h
  have hle := (Position.dropBytes?_ofNat file hsize hls.text_eq).1
  have hfound : (Line.find? source d.position.offset).isSome :=
    isSome_find?_of_checkSource h (hposition ▸ hle)
  obtain ⟨l, hline⟩ := Option.isSome_iff_exists.1 hfound
  have hwidest : Excerpt.widestUnderline = 65535 := rfl
  have hfits : (Excerpt.ofLine l).Fits ↔ (Excerpt.ofLine l).dashes < 65535 := by
    unfold Excerpt.Fits
    omega
  refine ⟨d, l, rfl, hline, (d.draw?_eq hsize file).symm, ?_, ?_, fun hshort => ?_⟩
  · rw [Diagnostic.report?_of_line hline, ← hfits, Option.ite_none_right_eq_some]
    refine and_iff_left ?_
    simp [Excerpt.text, String.append_assoc]
  · rw [Diagnostic.report?_of_line hline, ← Nat.not_lt, ← hfits, ite_eq_right_iff]
    simp
  · obtain ⟨before, after, hcut, -, -, hplace⟩ := Line.exists_of_find? hline
    have hpiece := hshort l.text (by rw [← Line.cut_iff.1 hcut]; simp)
    have hdashes : (Excerpt.ofLine l).dashes ≤ l.column := Nat.sub_le _ _
    omega

/-- A statement is missing its semicolon at the very end, after a newline. -/
theorem checkSource_report_atEnd : ∃ d s report,
    checkSource "int x;\nx := 1\n" "f" = .error (.rejected d) s ∧
      d.report? "int x;\nx := 1\n" "f" = some report ∧
      d.draw? "int x;\nx := 1\n" "f" = some report := by
  obtain ⟨s, h⟩ := Checked.exists_of_diagnostic?
    (by decide +kernel : Checked.diagnostic? (checkSource "int x;\nx := 1\n" "f") =
      some ⟨.unexpectedToken "EOF", ⟨14, "f"⟩⟩)
  obtain ⟨d, l, hd, -, hdraw, hfull, -, hshort⟩ :=
    checkSource_report "int x;\nx := 1\n" "f" (by decide +kernel) _ s h
  cases hd
  have hreport := hfull.2 (hshort (by decide +kernel))
  exact ⟨_, s, _, h, hreport, hdraw ▸ hreport⟩

/-! ### A report that cannot be written -/

/-- A digit, then blanks, and then a character that begins no lexeme. -/
def wideLine (blanks : Nat) : List Char := '1' :: (List.replicate blanks ' ' ++ ['@'])

theorem byteSize_wideLine (blanks : Nat) : Text.byteSize (wideLine blanks) = blanks + 2 := by
  have hsingle : Text.byteSize (wideLine blanks) = (wideLine blanks).length := by
    refine Text.byteSize_eq_length_iff.2 fun c hc => ?_
    simp only [wideLine, List.mem_cons, List.mem_append, List.mem_replicate, List.not_mem_nil,
      or_false] at hc
    rcases hc with rfl | ⟨-, rfl⟩ | rfl <;> rfl
  rw [hsingle]
  simp [wideLine]

theorem splits_wideLine (blanks : Nat) : Lexeme.Splits (wideLine (blanks + 1))
    [⟨some .number, ['1']⟩, ⟨none, List.replicate (blanks + 1) ' '⟩] ['@'] := by
  have hblanks : ∀ c ∈ List.replicate (blanks + 1) ' ', Text.isWhiteSpace c = true := by
    intro c hc
    rw [List.eq_of_mem_replicate hc]
    decide
  have hdigit : ∀ c ∈ ['1'], c.isDigit = true := List.forall_mem_singleton.2 (by decide)
  have hstops : Lexeme.Stops Char.isDigit (List.replicate (blanks + 1) ' ' ++ ['@']) :=
    Lexeme.stops_cons.2 (by decide)
  exact .cons (.number (List.cons_ne_nil _ _) hdigit hstops)
    (.cons (.space (List.cons_ne_nil _ _) hblanks (Lexeme.stops_cons.2 (by decide))) .nil)

/-- What is wrong with a wide line is its last character. -/
theorem checkSource_wideLine (blanks : Nat) (file : String) :
    checkSource (.ofList (wideLine (blanks + 1))) file =
      .error (.rejected ⟨.unrecognisedToken "@", .ofNat file (blanks + 2)⟩) .initial := by
  have hls := splits_wideLine blanks
  have hbytes := hls.byteSize_eq
  rw [byteSize_wideLine, show Text.byteSize ['@'] = 1 from rfl] at hbytes
  have hscan : Token.scan (.ofList (wideLine (blanks + 1))) file =
      .error ⟨.unrecognisedToken "@", .ofNat file (blanks + 2)⟩ := by
    rw [Token.scan_eq_error_iff, String.toList_ofList]
    refine ⟨_, '@', [], hls, by decide, ?_⟩
    rw [← Nat.succ.inj hbytes]
    rfl
  unfold checkSource
  rw [hscan]

theorem find?_wideLine {blanks : Nat} {offset : UInt32} (h : offset.toNat ≤ blanks + 2) :
    Line.find? (.ofList (wideLine blanks)) offset =
      some ⟨1, wideLine blanks, offset.toNat⟩ := by
  have hne : wideLine blanks ≠ [] := List.cons_ne_nil _ _
  have hnewline : '\n' ∉ wideLine blanks := by simp [wideLine, List.mem_replicate]
  rw [Line.find?, String.toList_ofList, Line.split_of_not_mem hne hnewline, Line.locate,
    if_pos (byteSize_wideLine blanks ▸ h)]

/-- **A report can fail.**  When 65535 characters stand before what is wrong on its line, the
underline is too wide. -/
theorem checkSource_wideLine_unreported :
    let source := String.ofList (wideLine 65534)
    let d : Diagnostic := ⟨.unrecognisedToken "@", ⟨65535, "f"⟩⟩
    Text.byteSize source.toList < UInt32.size ∧
      checkSource source "f" = .error (.rejected d) .initial ∧
      d.report? source "f" = none ∧ d.draw? source "f" = none := by
  intro source d
  have hsize : Text.byteSize source.toList < UInt32.size := by
    rw [String.toList_ofList, byteSize_wideLine]
    decide
  have hreport : d.report? source "f" = none := by
    rw [Diagnostic.report?_of_line (find?_wideLine (by decide))]
    exact if_neg (by decide)
  exact ⟨hsize, checkSource_wideLine 65533 "f", hreport, (d.draw?_eq hsize "f").trans hreport⟩

end SimpleLang
