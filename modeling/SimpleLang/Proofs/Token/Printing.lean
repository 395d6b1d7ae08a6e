import SimpleLang.Proofs.Concatenation

/-!
# Printing and scanning again

Lexemes can be printed with any layout around them: white space, and comments that a newline ends.
Between two lexemes there must be some, and it begins with white space, since a comment right after
a slash would take the slash along.  Scanning what is printed gives the lexemes back
(`Token.scan_print`).  So do the tokens of any text, printed with a blank between them.

Layout in front of a text adds nothing to its tokens, although the white space of neighbours runs
together into one lexeme (`Lexeme.Splits.separated`); and before white space every lexeme ends
(`Lexeme.IsToken.precedes_space`).
-/

namespace SimpleLang

namespace Lexeme

variable {c : Char} {cs sep : List Char} {l : Lexeme} {ls : List Lexeme}
  {items : List (Lexeme × List Char)}

/-! ### Layout -/

/-- White space and comments, in any order; each comment is ended by a newline. -/
inductive Separator : List Char → Prop
  | nil : Separator []
  | space {c : Char} {rest : List Char} :
    Text.isWhiteSpace c = true → Separator rest → Separator (c :: rest)
  | comment {cs rest : List Char} :
    (∀ c ∈ cs, continuesComment c = true) → Separator rest →
      Separator ('/' :: '/' :: (cs ++ '\n' :: rest))

/-- The lexeme makes a token: it is a word, a number or a mark. -/
def IsToken (l : Lexeme) : Prop := l.kind ≠ none ∧ l.Precedes []

/-- A token ends before a character that continues no word and is no slash. -/
theorem IsToken.precedes (h : l.IsToken) (hword : continuesWord c = false) (hslash : c ≠ '/')
    (cs : List Char) : l.Precedes (c :: cs) := by
  obtain ⟨hkind, hl⟩ := h
  have hdigit : c.isDigit = false := by
    rw [continuesWord_eq, Bool.or_eq_false_iff] at hword
    exact hword.2
  cases hl with
  | keyword hw hmem _ => exact .keyword hw hmem (stops_cons.2 hword)
  | identifier hw hnot _ => exact .identifier hw hnot (stops_cons.2 hword)
  | number hne hds _ => exact .number hne hds (stops_cons.2 hdigit)
  | symbol hm _ => exact .symbol hm fun _ => stops_cons.2 (beq_eq_false_iff_ne.2 hslash)
  | space _ _ _ => exact absurd rfl hkind
  | comment _ _ => exact absurd rfl hkind

/-- Every token ends before white space. -/
theorem IsToken.precedes_space (h : l.IsToken) (hc : Text.isWhiteSpace c = true)
    (cs : List Char) : l.Precedes (c :: cs) := by
  obtain ⟨hword, hdigit⟩ := classes_of_isWhiteSpace hc
  refine h.precedes ?_ ?_ cs
  · rw [continuesWord_eq, hword, hdigit, Bool.or_self]
  · rintro rfl
    exact absurd hc (by decide)

/-! ### Lexemes without layout -/

/-- The lexemes that make tokens. -/
def tokens (ls : List Lexeme) : List Lexeme := ls.filter fun l => l.kind.isSome

theorem tokens_cons_of_none (h : l.kind = none) (ls : List Lexeme) :
    tokens (l :: ls) = tokens ls :=
  List.filter_cons_of_neg (by simp [h])

theorem tokens_cons_of_ne_none (h : l.kind ≠ none) (ls : List Lexeme) :
    tokens (l :: ls) = l :: tokens ls :=
  List.filter_cons_of_pos (Option.isSome_iff_ne_none.2 h)

end Lexeme

namespace Token

/-- The kind and the text of a token. -/
def lexeme (t : Token) : Lexeme := ⟨some t.kind, t.text.toList⟩

theorem map_lexeme_placed (file : String) (offset : Nat) (ls : List Lexeme) :
    (placed file offset ls).map lexeme = Lexeme.tokens ls := by
  induction ls generalizing offset with
  | nil => rfl
  | cons l ls ih =>
    obtain ⟨kind, text⟩ := l
    rw [placed, List.map_append, ih]
    cases kind with
    | none => rfl
    | some kind =>
      rw [Lexeme.tokens_cons_of_ne_none (by simp)]
      simp [ofLexeme?, lexeme]

theorem map_lexeme_place (file : String) (ls : List Lexeme) :
    (place file 0 ls).map lexeme = Lexeme.tokens ls ++ [⟨some .eof, "EOF".toList⟩] := by
  rw [place_eq, List.map_append, map_lexeme_placed]
  rfl

end Token

namespace Lexeme

variable {c : Char} {cs sep ws : List Char} {l : Lexeme} {ls : List Lexeme}
  {items : List (Lexeme × List Char)}

/-- White space in front of a text adds no tokens. -/
theorem Splits.spaced (h : Splits cs ls []) (hc : Text.isWhiteSpace c = true) :
    ∃ ls', Splits (c :: cs) ls' [] ∧ tokens ls' = tokens ls := by
  obtain ⟨ls', hsplits, hplaced⟩ := h.pad (stops_nil _) (List.cons_ne_nil c []) (by simpa using hc)
  refine ⟨ls', hsplits, ?_⟩
  rw [← Token.map_lexeme_placed "" 0 ls', hplaced, Token.map_lexeme_placed]

/-- Layout in front of a text adds no tokens. -/
theorem Splits.separated (h : Splits cs ls []) (hsep : Separator sep) :
    ∃ ls', Splits (sep ++ cs) ls' [] ∧ tokens ls' = tokens ls := by
  induction hsep with
  | nil => exact ⟨ls, h, rfl⟩
  | space hc _ ih =>
    obtain ⟨ls', hsplits, htokens⟩ := ih
    obtain ⟨ls'', hsplits, htokens'⟩ := hsplits.spaced hc
    exact ⟨ls'', hsplits, htokens'.trans htokens⟩
  | @comment body rest hbody _ ih =>
    obtain ⟨ls', hsplits, htokens⟩ := ih
    obtain ⟨ls'', hsplits, htokens'⟩ := hsplits.spaced (c := '\n') (by decide)
    -- the newline ends the comment and goes to the white space after it
    have hcomment : Precedes ⟨none, '/' :: '/' :: body⟩ ('\n' :: (rest ++ cs)) :=
      .comment hbody (stops_cons.2 (by decide))
    refine ⟨_ :: ls'', by simpa using Splits.cons hcomment hsplits, ?_⟩
    rw [tokens_cons_of_none rfl, htokens', htokens]

/-! ### Printing -/

/-- Lexemes and the layout around them, such that no two lexemes run together. -/
structure Printout where
  /-- What stands before the first lexeme. -/
  lead : List Char
  /-- The lexemes, each with what stands after it. -/
  items : List (Lexeme × List Char)
  /-- The text in front is layout. -/
  lead_separator : Separator lead
  /-- All lexemes are words, numbers or marks. -/
  isToken : ∀ i ∈ items, i.1.IsToken
  /-- The texts after lexemes are layout. -/
  separator : ∀ i ∈ items, Separator i.2
  /-- They begin with white space. -/
  begins : ∀ i ∈ items, ∀ c ∈ i.2.head?, Text.isWhiteSpace c = true
  /-- Between two lexemes there is some. -/
  between : ∀ i ∈ items.dropLast, i.2 ≠ []

namespace Printout

/-- What is printed. -/
def text (p : Printout) : List Char := p.lead ++ p.items.flatMap fun i => i.1.text ++ i.2

/-- The lexemes that are printed. -/
def lexemes (p : Printout) : List Lexeme := p.items.map Prod.fst

end Printout

/-- Lexemes that are printed with layout after each of them are those of the printed text. -/
theorem exists_splits_items (htoken : ∀ i ∈ items, i.1.IsToken)
    (hsep : ∀ i ∈ items, Separator i.2)
    (hbegins : ∀ i ∈ items, ∀ c ∈ i.2.head?, Text.isWhiteSpace c = true)
    (hbetween : ∀ i ∈ items.dropLast, i.2 ≠ []) :
    ∃ ls, Splits (items.flatMap fun i => i.1.text ++ i.2) ls [] ∧
      tokens ls = items.map Prod.fst := by
  induction items with
  | nil => exact ⟨[], .nil, rfl⟩
  | cons i items ih =>
    obtain ⟨l, sep⟩ := i
    obtain ⟨hl, htoken⟩ := List.forall_mem_cons.1 htoken
    obtain ⟨hsep, hseps⟩ := List.forall_mem_cons.1 hsep
    obtain ⟨hspace, hbegins⟩ := List.forall_mem_cons.1 hbegins
    have htail : ∀ i ∈ items.dropLast, i.2 ≠ [] := by
      intro i hi
      cases items with
      | nil => cases hi
      | cons j items => exact hbetween i (List.mem_cons_of_mem _ hi)
    obtain ⟨ls, hsplits, htokens⟩ := ih htoken hseps hbegins htail
    obtain ⟨ls', hsplits, htokens'⟩ := hsplits.separated hsep
    -- the lexeme ends before white space, or where the text ends
    have hprecedes : l.Precedes (sep ++ items.flatMap fun i => i.1.text ++ i.2) := by
      cases sep with
      | cons c sep => exact hl.precedes_space (hspace c rfl) _
      | nil =>
        cases items with
        | nil => exact hl.2
        | cons j items => exact absurd rfl (hbetween _ (List.mem_cons_self ..))
    refine ⟨l :: ls', ?_, ?_⟩
    · rw [List.flatMap_cons, List.append_assoc]
      exact .cons hprecedes hsplits
    · rw [tokens_cons_of_ne_none hl.1, htokens', htokens, List.map_cons]

theorem Printout.exists_splits (p : Printout) :
    ∃ ls, Splits p.text ls [] ∧ tokens ls = p.lexemes := by
  obtain ⟨ls, hsplits, htokens⟩ :=
    exists_splits_items p.isToken p.separator p.begins p.between
  obtain ⟨ls', hsplits, htokens'⟩ := hsplits.separated p.lead_separator
  exact ⟨ls', hsplits, htokens'.trans htokens⟩

/-! ### Blanks -/

/-- Lexemes with a blank after each but the last. -/
def withBlanks : List Lexeme → List (Lexeme × List Char)
  | [] => []
  | [l] => [(l, [])]
  | l :: l' :: ls => (l, [' ']) :: withBlanks (l' :: ls)

theorem map_fst_withBlanks (ls : List Lexeme) : (withBlanks ls).map Prod.fst = ls := by
  fun_induction withBlanks ls with
  | case1 => rfl
  | case2 => rfl
  | case3 l l' ls ih => rw [List.map_cons, ih]

theorem flatMap_withBlanks (ls : List Lexeme) :
    ((withBlanks ls).flatMap fun i => i.1.text ++ i.2) = [' '].intercalate (ls.map text) := by
  fun_induction withBlanks ls with
  | case1 => rfl
  | case2 l => simp
  | case3 l l' ls ih =>
    rw [List.flatMap_cons, ih]
    exact List.intercalate_cons_cons.symm

theorem snd_of_mem_withBlanks {i : Lexeme × List Char} (h : i ∈ withBlanks ls) :
    i.2 = [] ∨ i.2 = [' '] := by
  fun_induction withBlanks ls with
  | case1 => cases h
  | case2 l => exact .inl (by rw [List.mem_singleton.1 h])
  | case3 l l' ls ih =>
    rcases List.mem_cons.1 h with rfl | h
    · exact .inr rfl
    · exact ih h

theorem snd_of_mem_dropLast_withBlanks {i : Lexeme × List Char}
    (h : i ∈ (withBlanks ls).dropLast) : i.2 = [' '] := by
  fun_induction withBlanks ls with
  | case1 => cases h
  | case2 l => cases h
  | case3 l l' ls ih =>
    have hne : withBlanks (l' :: ls) ≠ [] := by
      intro hnil
      have hmap := map_fst_withBlanks (l' :: ls)
      rw [hnil] at hmap
      cases hmap
    rw [List.dropLast_cons_of_ne_nil hne] at h
    rcases List.mem_cons.1 h with rfl | h
    · rfl
    · exact ih h

/-- Lexemes printed with a blank between them. -/
def Printout.blanks (ls : List Lexeme) (h : ∀ l ∈ ls, l.IsToken) : Printout where
  lead := []
  items := withBlanks ls
  lead_separator := .nil
  isToken i hi := by
    refine h i.1 ?_
    rw [← map_fst_withBlanks ls]
    exact List.mem_map_of_mem hi
  separator i hi := by
    rcases snd_of_mem_withBlanks hi with h | h
    · exact h ▸ .nil
    · exact h ▸ .space (by decide) .nil
  begins i hi c hc := by
    rcases snd_of_mem_withBlanks hi with h | h
    · rw [h] at hc
      cases hc
    · rw [h] at hc
      cases hc
      decide
  between i hi := by
    rw [snd_of_mem_dropLast_withBlanks hi]
    exact List.cons_ne_nil _ _

/-- The lexemes of a text are tokens by themselves, unless they are layout. -/
theorem Splits.isToken {left : List Char} (h : Splits cs ls left) :
    ∀ l ∈ tokens ls, l.IsToken := by
  induction h with
  | nil => simp [tokens]
  | @cons l rest ls left hl _ ih =>
    intro l' hl'
    obtain ⟨hmem, hkind⟩ := List.mem_filter.1 hl'
    rcases List.mem_cons.1 hmem with rfl | hmem
    · exact ⟨Option.isSome_iff_ne_none.1 hkind, hl.of_stops fun p _ => stops_nil p⟩
    · exact ih l' (List.mem_filter.2 ⟨hmem, hkind⟩)

end Lexeme

namespace Token

/-- **Scanning undoes printing.**  Lexemes that are printed with any layout around them, such that
no two run together, are the tokens of what is printed, and then comes the end of input.  So the
tokens of any text, printed with a blank between them and without the end of input, have the same
kinds and texts when they are scanned again. -/
theorem scan_print (file : String) :
    (∀ p : Lexeme.Printout, ∃ tokens, scan (.ofList p.text) file = .ok tokens ∧
      tokens.map lexeme = p.lexemes ++ [⟨some .eof, "EOF".toList⟩]) ∧
    ∀ source tokens, scan source file = .ok tokens →
      ∃ tokens', scan (" ".intercalate (tokens.dropLast.map text)) file = .ok tokens' ∧
        tokens'.map lexeme = tokens.map lexeme := by
  have hprint : ∀ p : Lexeme.Printout, ∃ tokens, scan (.ofList p.text) file = .ok tokens ∧
      tokens.map lexeme = p.lexemes ++ [⟨some .eof, "EOF".toList⟩] := by
    intro p
    obtain ⟨ls, hls, htokens⟩ := p.exists_splits
    refine ⟨place file 0 ls, scan_eq_ok_iff.2 ⟨ls, by simpa using hls, rfl⟩, ?_⟩
    rw [map_lexeme_place, htokens]
  refine ⟨hprint, fun source tokens h => ?_⟩
  obtain ⟨ls, hls, rfl⟩ := scan_eq_ok_iff.1 h
  obtain ⟨tokens', hscan, hlexemes⟩ := hprint (.blanks (Lexeme.tokens ls) hls.isToken)
  -- the texts of the tokens are those of the lexemes
  have htexts : (placed file 0 ls).map (fun t => t.text.toList) =
      (Lexeme.tokens ls).map Lexeme.text := by
    rw [← map_lexeme_placed file 0 ls, List.map_map]
    rfl
  have hsource : " ".intercalate ((place file 0 ls).dropLast.map text) =
      .ofList (Lexeme.Printout.blanks (Lexeme.tokens ls) hls.isToken).text := by
    rw [← String.toList_inj, String.toList_intercalate, place_eq, List.dropLast_concat,
      List.map_map]
    exact ((congrArg _ htexts).trans (Lexeme.flatMap_withBlanks _).symm).trans
      String.toList_ofList.symm
  refine ⟨tokens', hsource ▸ hscan, hlexemes.trans ?_⟩
  rw [map_lexeme_place]
  exact congrArg (· ++ _) (Lexeme.map_fst_withBlanks _)

/-- A slash before a comment, in a text that begins with another comment. -/
def slashPrintout : Lexeme.Printout where
  lead := ['/', '/', '=', '\n']
  items := [(⟨some .slash, ['/']⟩, [' ', '/', '/', 'é', '\n']), (⟨some .ifKw, ['i', 'f']⟩, [])]
  lead_separator :=
    @Lexeme.Separator.comment ['='] [] (List.forall_mem_singleton.2 (by decide)) .nil
  isToken := by
    have hword : Lexeme.IsWord ['i', 'f'] :=
      ⟨'i', ['f'], rfl, by decide, List.forall_mem_singleton.2 (by decide)⟩
    exact List.forall_mem_cons.2 ⟨⟨nofun, .symbol (by decide) fun _ => Lexeme.stops_nil _⟩,
      List.forall_mem_singleton.2 ⟨nofun, .keyword hword (by decide) (Lexeme.stops_nil _)⟩⟩
  separator := by
    have hcomment : Lexeme.Separator ['/', '/', 'é', '\n'] :=
      @Lexeme.Separator.comment ['é'] [] (List.forall_mem_singleton.2 (by decide)) .nil
    exact List.forall_mem_cons.2 ⟨.space (by decide) hcomment, List.forall_mem_singleton.2 .nil⟩
  begins := by
    refine List.forall_mem_cons.2 ⟨?_, List.forall_mem_singleton.2 nofun⟩
    rintro _ ⟨⟩
    decide
  between := by decide

theorem scan_print_slash :
    (∃ tokens, scan (.ofList slashPrintout.text) "f" = .ok tokens ∧ tokens.map lexeme =
      [⟨some .slash, ['/']⟩, ⟨some .ifKw, ['i', 'f']⟩, ⟨some .eof, ['E', 'O', 'F']⟩]) ∧
    ∃ tokens', scan "x := 1" "f" = .ok tokens' ∧ tokens'.map lexeme =
      [⟨some .identifier, ['x']⟩, ⟨some .assignment, [':', '=']⟩, ⟨some .number, ['1']⟩,
        ⟨some .eof, ['E', 'O', 'F']⟩] := by
  have hscan : scan "x:=1//" "f" = .ok [⟨.identifier, "x", ⟨⟨0, "f"⟩, ⟨1, "f"⟩⟩⟩,
      ⟨.assignment, ":=", ⟨⟨1, "f"⟩, ⟨3, "f"⟩⟩⟩, ⟨.number, "1", ⟨⟨3, "f"⟩, ⟨4, "f"⟩⟩⟩,
      .endOfInput ⟨6, "f"⟩] := by decide +kernel
  obtain ⟨hprint, htokens⟩ := scan_print "f"
  exact ⟨hprint slashPrintout, htokens "x:=1//" _ hscan⟩

end Token

end SimpleLang
