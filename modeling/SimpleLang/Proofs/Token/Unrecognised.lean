import SimpleLang.Proofs.Token.Stretch
import Mathlib.Data.List.Basic

/-!
# Where scanning fails

A text without tokens has a character that stops the scan.  What stands before that character has
tokens, and the character begins no lexeme and no layout, because it belongs to nothing that can be
written, or because it is the first half of `:=`, `||` or `&&` without the second
(`Token.scan_error_exact`).

A lexeme looks at no more than one character after it.  So the lexemes before a place are the same
whatever comes after the character at that place (`Lexeme.Splits.follow`), and every longer piece of
the text fails at the same character: the scan stops at the end of the longest piece that has
tokens.
-/

namespace SimpleLang

namespace Lexeme

variable {c : Char} {cs rest left left' after : List Char} {l : Lexeme} {ls : List Lexeme}

/-! ### Characters that begin nothing -/

/-- The characters that lexemes are written with: letters, digits and underscores, white space, and
those of the operators and punctuation marks.  A comment may hold any others. -/
def inAlphabet (c : Char) : Bool :=
  continuesWord c || Text.isWhiteSpace c || TokenKind.symbols.any fun s => s.1.contains c

/-- The operators of two characters. -/
def pairs : List (Char × Char) := [(':', '='), ('|', '|'), ('&', '&')]

/-- A character of a mark is a mark by itself or begins a pair. -/
theorem symbols_single_or_pair : ∀ s ∈ TokenKind.symbols, ∀ x ∈ s.1,
    (∃ s' ∈ TokenKind.symbols, s'.1 = [x]) ∨ ∃ pair ∈ pairs, pair.1 = x ∧ s.1 = [x, pair.2] := by
  -- as a Boolean of the table, so that nothing searches through all characters
  have htable : ∀ s ∈ TokenKind.symbols, (s.1.all fun x =>
      (TokenKind.symbols.any fun s' => decide (s'.1 = [x])) ||
        pairs.any fun pair => decide (pair.1 = x ∧ s.1 = [x, pair.2])) = true := by
    decide
  intro s hs x hx
  have h := List.all_eq_true.1 (htable s hs) x hx
  simpa only [Bool.or_eq_true, List.any_eq_true, decide_eq_true_eq] using h

theorem first?_eq_none_iff : first? (c :: rest) = none ↔
    startsWord c = false ∧ c.isDigit = false ∧ Text.isWhiteSpace c = false ∧
      ∀ s ∈ TokenKind.symbols, ¬ s.1 <+: c :: rest := by
  have hsymbol : symbol? (c :: rest) = none ↔ ∀ s ∈ TokenKind.symbols, ¬ s.1 <+: c :: rest := by
    simp [symbol?, List.findSome?_eq_none_iff]
  rw [first?]
  split
  · simp_all
  split
  · simp_all
  split
  · simp_all
  split
  · -- two slashes begin a comment, and the first of them is a mark
    rename_i hslashes
    refine iff_of_false (by simp) fun h => ?_
    obtain ⟨tail, htail⟩ := List.isPrefixOf_iff_prefix.1 hslashes
    exact h.2.2.2 (['/'], .slash) (by decide) ⟨'/' :: tail, htail⟩
  · simp_all

/-- Where no lexeme is found none begins, not even a shorter one. -/
theorem not_prefix_of_first?_eq_none (h : first? (c :: rest) = none) (hl : l.Precedes after) :
    ¬ l.text <+: c :: rest := by
  obtain ⟨hword, hdigit, hspace, hsymbols⟩ := first?_eq_none_iff.1 h
  have hnotWord : ∀ {w}, IsWord w → ¬ w <+: c :: rest := by
    rintro _ ⟨x, xs, rfl, hx, -⟩ hbegins
    obtain ⟨rfl, -⟩ := List.cons_prefix_cons.1 hbegins
    simp [hword] at hx
  intro hbegins
  cases hl with
  | keyword hw _ _ => exact hnotWord hw hbegins
  | identifier hw _ _ => exact hnotWord hw hbegins
  | @number ds _ hne hds _ =>
    obtain ⟨d, ds, rfl⟩ := List.exists_cons_of_ne_nil hne
    obtain ⟨rfl, -⟩ := List.cons_prefix_cons.1 hbegins
    simp [hdigit] at hds
  | symbol hm _ => exact hsymbols _ hm hbegins
  | @space ws _ hne hws _ =>
    obtain ⟨x, ws, rfl⟩ := List.exists_cons_of_ne_nil hne
    obtain ⟨rfl, -⟩ := List.cons_prefix_cons.1 hbegins
    simp [hspace] at hws
  | @comment cs _ _ _ =>
    have hslash : ['/'] <+: '/' :: '/' :: cs := ⟨'/' :: cs, rfl⟩
    exact hsymbols (['/'], .slash) (by decide) (hslash.trans hbegins)

/-- A character that begins no lexeme is foreign, or begins a pair and is not followed by the rest
of it. -/
theorem foreign_or_half_of_first?_eq_none (h : first? (c :: rest) = none) :
    inAlphabet c = false ∨ ∃ pair ∈ pairs, pair.1 = c ∧ rest.head? ≠ some pair.2 := by
  obtain ⟨hword, hdigit, hspace, hsymbols⟩ := first?_eq_none_iff.1 h
  by_cases hmark : ∃ s ∈ TokenKind.symbols, c ∈ s.1
  · obtain ⟨s, hs, hc⟩ := hmark
    rcases symbols_single_or_pair s hs c hc with ⟨s', hs', hsingle⟩ | ⟨pair, hpair, hfst, hboth⟩
    · exact absurd (hsingle ▸ List.prefix_append [c] rest) (hsymbols s' hs')
    · refine .inr ⟨pair, hpair, hfst, fun hhead => hsymbols s hs ?_⟩
      obtain ⟨tail, rfl⟩ := List.head?_eq_some_iff.1 hhead
      exact hboth ▸ List.prefix_append [c, pair.2] tail
  · left
    have hcontinues : continuesWord c = false := by
      rw [continuesWord_eq, hword, hdigit, Bool.or_self]
    simp only [inAlphabet, hcontinues, hspace, Bool.or_self, Bool.false_or, List.any_eq_false,
      List.contains_iff_mem]
    exact fun s hs hc => hmark ⟨s, hs, hc⟩

/-! ### The text after a place -/

/-- The lexemes before a place do not depend on what comes after the character there. -/
theorem Splits.follow (h : Splits cs ls left) (hhead : left'.head? = left.head?) :
    Splits (ls.flatMap text ++ left') ls left' := by
  induction h with
  | nil => exact .nil
  | @cons l rest ls left hl hrest ih =>
    rw [List.flatMap_cons, List.append_assoc]
    refine .cons (hl.of_head_eq ?_) (ih hhead)
    rw [hrest.text_eq, List.head?_append, List.head?_append, hhead]

/-- A character that begins no lexeme begins none in a shorter text either. -/
theorem first?_eq_none_of_append (h : first? (c :: (cs ++ rest)) = none) :
    first? (c :: cs) = none := by
  obtain ⟨hword, hdigit, hspace, hsymbols⟩ := first?_eq_none_iff.1 h
  refine first?_eq_none_iff.2 ⟨hword, hdigit, hspace, fun s hs hbegins => hsymbols s hs ?_⟩
  exact hbegins.trans (List.prefix_append (c :: cs) rest)

end Lexeme

namespace Token

variable {source file : String} {d : Diagnostic}

/-- The scan of a text stops at the character `c` between `before` and `rest`. -/
structure StopsAt (file : String) (before : List Char) (c : Char) (rest : List Char) : Prop where
  /-- What stands before has tokens on its own, and they end where the scan stops. -/
  scanned : ∃ ts e, scan (.ofList before) file = .ok (ts ++ [e]) ∧ e.kind = .eof ∧
    e.span.Covers file (Text.byteSize before) (Text.byteSize before)
  /-- No lexeme begins there: no word, number or mark, no white space and no comment. -/
  none_begins : ∀ (l : Lexeme) (after : List Char), l.Precedes after → ¬ l.text <+: c :: rest
  /-- The character is foreign, or half of an operator. -/
  reason : Lexeme.inAlphabet c = false ∨ (c = ':' ∧ rest.head? ≠ some '=') ∨
    (c = '|' ∧ rest.head? ≠ some '|') ∨ (c = '&' ∧ rest.head? ≠ some '&')

/-- The diagnostic of a scan that stops at a character after `before`. -/
structure Reports (file : String) (before : List Char) (c : Char) (d : Diagnostic) : Prop where
  /-- It names the character. -/
  problem : d.problem = .unrecognisedToken (String.singleton c)
  /-- It counts the bytes before the character, in 32 bits. -/
  offset : d.position.offset.toNat = Text.byteSize before % UInt32.size
  /-- It names the file. -/
  file : d.position.file = file

theorem stopsAt_of_splits {cs before rest : List Char} {c : Char} {ls : List Lexeme}
    (hls : Lexeme.Splits cs ls (c :: rest)) (hnone : Lexeme.first? (c :: rest) = none)
    (hbefore : before = ls.flatMap Lexeme.text) : StopsAt file before c rest where
  scanned := by
    rw [← List.append_nil ls] at hls
    have htake : Lexeme.Splits before ls [] := hbefore ▸ hls.take
    refine ⟨placed file 0 ls, endOfInput (.ofNat file (0 + Lexeme.byteSize ls)),
      scan_eq_ok_iff.2 ⟨ls, by simpa using htake, (place_eq file 0 ls).symm⟩, rfl, ?_⟩
    rw [Nat.zero_add, Lexeme.byteSize, ← hbefore]
    exact ⟨⟨rfl, rfl⟩, Position.toNat_ofNat _ _, Position.toNat_ofNat _ _⟩
  none_begins := fun _ _ hl => Lexeme.not_prefix_of_first?_eq_none hnone hl
  reason := by
    rcases Lexeme.foreign_or_half_of_first?_eq_none hnone with h | ⟨pair, hpair, rfl, hhead⟩
    · exact .inl h
    · right
      simp only [Lexeme.pairs, List.mem_cons, List.not_mem_nil, or_false] at hpair
      rcases hpair with rfl | rfl | rfl
      · exact .inl ⟨rfl, hhead⟩
      · exact .inr (.inl ⟨rfl, hhead⟩)
      · exact .inr (.inr ⟨rfl, hhead⟩)

/-- **Scanning fails exactly where it must.**  The diagnostic of a text without tokens names one
character of it and the bytes before that character.  What stands before has tokens and ends there,
the character begins neither a lexeme nor layout, and every piece of the text that holds it fails in
the same way. -/
theorem scan_error_exact (source file : String) (d : Diagnostic)
    (h : scan source file = .error d) : ∃ before c rest, source.toList = before ++ c :: rest ∧
      Reports file before c d ∧ StopsAt file before c rest ∧
      ∀ more, more <+: rest → scan (.ofList (before ++ c :: more)) file = .error d := by
  obtain ⟨ls, c, rest, hls, hnone, rfl⟩ := scan_eq_error_iff.1 h
  refine ⟨ls.flatMap Lexeme.text, c, rest, hls.text_eq, ⟨rfl, Position.toNat_ofNat _ _, rfl⟩,
    stopsAt_of_splits hls hnone rfl, ?_⟩
  rintro more ⟨after, rfl⟩
  refine scan_eq_error_iff.2 ⟨ls, c, more, ?_, Lexeme.first?_eq_none_of_append hnone, rfl⟩
  rw [String.toList_ofList]
  exact hls.follow rfl

/-- A foreign character in a comment is passed over; half an assignment is not, and what follows it
does not matter. -/
theorem scan_error_exact_colon :
    let before := "a//@é\n".toList
    let d : Diagnostic := ⟨.unrecognisedToken ":", ⟨7, "f"⟩⟩
    scan "a//@é\n:b" "f" = .error d ∧ Reports "f" before ':' d ∧ StopsAt "f" before ':' ['b'] ∧
      ∀ more, more <+: ['b'] → scan (.ofList (before ++ ':' :: more)) "f" = .error d := by
  intro before d
  have h : scan "a//@é\n:b" "f" = .error d := by decide +kernel
  obtain ⟨start, c, rest, hsource, hreports, hexact⟩ := scan_error_exact "a//@é\n:b" "f" d h
  obtain rfl : ':' = c := by
    have hproblem := Problem.unrecognisedToken.inj hreports.problem
    simpa using congrArg String.toList hproblem
  have htext : "a//@é\n:b".toList = before ++ ':' :: ['b'] := by decide +kernel
  -- the text has one colon
  obtain ⟨rfl, -, rfl⟩ := (List.append_cons_inj_of_notMem (by decide +kernel) (by decide)).1
    (htext.symm.trans hsource)
  exact ⟨h, hreports, hexact⟩

end Token

end SimpleLang
