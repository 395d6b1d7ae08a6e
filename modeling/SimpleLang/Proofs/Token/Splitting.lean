import SimpleLang.Token.Scan
import Mathlib.Data.List.TakeWhile

/-!
# How a text splits into lexemes

What it is to split a text into lexemes, said without taking them off one by one.  A lexeme is a
word, a run of digits, an operator or punctuation mark, a run of white space or a comment, and it
ends where it cannot go on: `Lexeme.Precedes l rest` says that `l` is a lexeme and may end before
`rest`.  A split is a list of lexemes that make up the text and each precede what comes after it
(`Lexeme.Splits`).

* `Lexeme.first?_eq_some_iff`: what is taken off the front of a text is the lexeme that precedes
  the rest;
* `Lexeme.split_eq_iff`: so taking off lexemes as far as that goes gives the split, and there is
  no other (`Lexeme.Splits.unique`).
-/

namespace SimpleLang

namespace Lexeme

variable {c : Char} {cs rest left : List Char} {l : Lexeme} {ls ls' : List Lexeme}
  {kind : TokenKind} {p : Char → Bool}

/-! ### Lexemes and what may come after them -/

/-- The text does not begin with a character of the class `p`. -/
def Stops (p : Char → Bool) (rest : List Char) : Prop := ∀ c ∈ rest.head?, p c = false

/-- A letter or an underscore, then letters, digits and underscores. -/
def IsWord (w : List Char) : Prop :=
  ∃ c cs, w = c :: cs ∧ startsWord c = true ∧ ∀ x ∈ cs, continuesWord x = true

/-- The lexeme may end before the text `rest`. -/
inductive Precedes : Lexeme → List Char → Prop
  /-- A reserved word, not followed by more of a word. -/
  | keyword {w rest : List Char} {kind : TokenKind} :
    IsWord w → (w, kind) ∈ TokenKind.reserved → Stops continuesWord rest →
      Precedes ⟨some kind, w⟩ rest
  /-- Any other word. -/
  | identifier {w rest : List Char} :
    IsWord w → (∀ kind, (w, kind) ∉ TokenKind.reserved) → Stops continuesWord rest →
      Precedes ⟨some .identifier, w⟩ rest
  /-- Digits, as many as there are. -/
  | number {ds rest : List Char} :
    ds ≠ [] → (∀ d ∈ ds, d.isDigit = true) → Stops Char.isDigit rest →
      Precedes ⟨some .number, ds⟩ rest
  /-- An operator or punctuation mark; two slashes begin a comment. -/
  | symbol {mark rest : List Char} {kind : TokenKind} :
    (mark, kind) ∈ TokenKind.symbols → (kind = .slash → Stops (· == '/') rest) →
      Precedes ⟨some kind, mark⟩ rest
  /-- White space, as much as there is. -/
  | space {ws rest : List Char} :
    ws ≠ [] → (∀ c ∈ ws, Text.isWhiteSpace c = true) → Stops Text.isWhiteSpace rest →
      Precedes ⟨none, ws⟩ rest
  /-- A comment, up to the next newline or the end of the text. -/
  | comment {cs rest : List Char} :
    (∀ c ∈ cs, continuesComment c = true) → Stops continuesComment rest →
      Precedes ⟨none, '/' :: '/' :: cs⟩ rest

/-- The text `cs` is made of the lexemes `ls`, each as long as it can be, and then `left`. -/
inductive Splits : List Char → List Lexeme → List Char → Prop
  | nil {left : List Char} : Splits left [] left
  | cons {l : Lexeme} {rest : List Char} {ls : List Lexeme} {left : List Char} :
    l.Precedes rest → Splits rest ls left → Splits (l.text ++ rest) (l :: ls) left

/-! ### Classes of characters -/

theorem stops_nil (p : Char → Bool) : Stops p [] := by simp [Stops]

theorem stops_cons : Stops p (c :: cs) ↔ p c = false := by simp [Stops]

theorem stops_dropWhile (p : Char → Bool) (cs : List Char) : Stops p (cs.dropWhile p) := by
  intro c hc
  have h := List.head?_dropWhile_not p cs
  rwa [hc] at h

theorem takeWhile_of_stops (hcs : ∀ x ∈ cs, p x = true) (hrest : Stops p rest) :
    (cs ++ rest).takeWhile p = cs := by
  rw [List.takeWhile_append_of_pos hcs]
  cases rest with
  | nil => simp
  | cons c rest => simp [stops_cons.1 hrest]

theorem dropWhile_of_stops (hcs : ∀ x ∈ cs, p x = true) (hrest : Stops p rest) :
    (cs ++ rest).dropWhile p = rest := by
  rw [List.dropWhile_append_of_pos hcs]
  cases rest with
  | nil => rfl
  | cons c rest => simp [stops_cons.1 hrest]

theorem toNat_of_startsWord (h : startsWord c = true) : 65 ≤ c.toNat ∧ c.toNat ≤ 122 := by
  change (decide (65 ≤ c.toNat ∧ c.toNat ≤ 90) || (decide (97 ≤ c.toNat) && decide (c.toNat ≤ 122))
    || c == '_') = true at h
  simp only [Bool.or_eq_true, Bool.and_eq_true, decide_eq_true_eq, beq_iff_eq] at h
  rcases h with (h | h) | rfl
  · omega
  · omega
  · decide

theorem toNat_of_isDigit (h : c.isDigit = true) : 48 ≤ c.toNat ∧ c.toNat ≤ 57 := by
  simp only [Char.isDigit, Bool.and_eq_true, decide_eq_true_eq, ge_iff_le,
    UInt32.le_iff_toNat_le] at h
  exact h

theorem toNat_of_isWhiteSpace (h : Text.isWhiteSpace c = true) :
    c.toNat ≤ 32 ∨ 133 ≤ c.toNat := by
  simp [Text.isWhiteSpace, Text.whiteSpace, CharSet.contains, CharSet.within] at h
  omega

/-- A word goes on with what words begin with and with digits. -/
theorem continuesWord_eq (c : Char) : continuesWord c = (startsWord c || c.isDigit) := by
  change (c.isAlpha || c.isDigit || c == '_') = (c.isAlpha || c == '_' || c.isDigit)
  exact Bool.or_right_comm _ _ _

/-- A digit begins no word. -/
theorem startsWord_of_isDigit (h : c.isDigit = true) : startsWord c = false := by
  refine Bool.eq_false_iff.2 fun hword => ?_
  have := toNat_of_isDigit h
  have := toNat_of_startsWord hword
  omega

/-- White space begins neither a word nor a number. -/
theorem classes_of_isWhiteSpace (h : Text.isWhiteSpace c = true) :
    startsWord c = false ∧ c.isDigit = false := by
  have := toNat_of_isWhiteSpace h
  constructor
  · refine Bool.eq_false_iff.2 fun hword => ?_
    have := toNat_of_startsWord hword
    omega
  · refine Bool.eq_false_iff.2 fun hdigit => ?_
    have := toNat_of_isDigit hdigit
    omega

/-! ### Words and symbols -/

theorem ofWord_of_mem {w : List Char} (h : (w, kind) ∈ TokenKind.reserved) :
    TokenKind.ofWord w = kind := by
  have hall : ∀ e ∈ TokenKind.reserved, TokenKind.ofWord e.1 = e.2 := by decide
  exact hall _ h

theorem ofWord_of_not_mem {w : List Char} (h : ∀ kind, (w, kind) ∉ TokenKind.reserved) :
    TokenKind.ofWord w = .identifier := by
  have hnone : TokenKind.reserved.lookup w = none := by
    refine List.lookup_eq_none_iff.2 fun e he => ?_
    rw [bne_iff_ne]
    rintro rfl
    exact h e.2 he
  rw [TokenKind.ofWord, hnone, Option.getD_none]

/-- A word is reserved or an identifier. -/
theorem Precedes.word {w : List Char} (hw : IsWord w) (hrest : Stops continuesWord rest) :
    Precedes ⟨some (.ofWord w), w⟩ rest := by
  by_cases h : ∃ kind, (w, kind) ∈ TokenKind.reserved
  · obtain ⟨kind, hkind⟩ := h
    rw [ofWord_of_mem hkind]
    exact .keyword hw hkind hrest
  · have hnot := not_exists.1 h
    rw [ofWord_of_not_mem hnot]
    exact .identifier hw hnot hrest

/-- No mark begins another. -/
theorem symbols_incomparable :
    ∀ a ∈ TokenKind.symbols, ∀ b ∈ TokenKind.symbols, a.1 <+: b.1 → a = b := by decide

/-- A mark begins with a character that begins nothing else, but for the slash of a comment. -/
theorem symbols_begin : ∀ s ∈ TokenKind.symbols, ∃ c ∈ s.1.head?, startsWord c = false ∧
    c.isDigit = false ∧ Text.isWhiteSpace c = false ∧ (c = '/' → s = (['/'], .slash)) := by
  -- as a Boolean of the table, so that nothing searches through all characters
  have htable : ∀ s ∈ TokenKind.symbols, (s.1.head?.any fun c => !startsWord c && !c.isDigit &&
      !Text.isWhiteSpace c && (!decide (c = '/') || decide (s = (['/'], .slash)))) = true := by
    decide
  intro s hs
  obtain ⟨c, hc, h⟩ := (Option.any_eq_true _ _).1 (htable s hs)
  simp only [Bool.and_eq_true, Bool.not_eq_true', Bool.or_eq_true, decide_eq_true_eq,
    decide_eq_false_iff_not] at h
  obtain ⟨⟨⟨hword, hdigit⟩, hspace⟩, hslash⟩ := h
  exact ⟨c, hc, hword, hdigit, hspace, fun heq => hslash.resolve_left (not_not_intro heq)⟩

theorem symbol?_eq_some_iff : symbol? cs = some (l, rest) ↔
    ∃ mark kind, (mark, kind) ∈ TokenKind.symbols ∧ l = ⟨some kind, mark⟩ ∧ cs = mark ++ rest := by
  constructor
  · intro h
    have htext := symbol?_text h
    obtain ⟨⟨mark, kind⟩, hm, hs⟩ := List.exists_of_findSome?_eq_some h
    simp only [Option.ite_none_right_eq_some, Option.some.injEq, Prod.mk.injEq] at hs
    obtain ⟨-, rfl, -⟩ := hs
    exact ⟨mark, kind, hm, rfl, htext.symm⟩
  · rintro ⟨mark, kind, hm, rfl, rfl⟩
    have hsome : (symbol? (mark ++ rest)).isSome = true :=
      List.findSome?_isSome_iff.2 ⟨_, hm, by simp⟩
    obtain ⟨⟨l, rest'⟩, hl⟩ := Option.isSome_iff_exists.1 hsome
    have htext := symbol?_text hl
    obtain ⟨⟨mark', kind'⟩, hm', hs⟩ := List.exists_of_findSome?_eq_some hl
    simp only [Option.ite_none_right_eq_some, Option.some.injEq, Prod.mk.injEq] at hs
    obtain ⟨hbegins, rfl, -⟩ := hs
    -- of two marks at the front of one text, one begins the other
    have heq : (mark', kind') = (mark, kind) := by
      rcases List.prefix_or_prefix_of_prefix (List.isPrefixOf_iff_prefix.1 hbegins)
        (List.prefix_append mark rest) with h | h
      · exact symbols_incomparable _ hm' _ hm h
      · exact (symbols_incomparable _ hm _ hm' h).symm
    cases heq
    rw [hl, List.append_cancel_left htext]

/-! ### One lexeme -/

/-- The lexeme at the front of a text precedes what is left. -/
theorem precedes_of_first? (h : first? cs = some (l, rest)) : l.Precedes rest := by
  cases cs with
  | nil => simp [first?] at h
  | cons c cs =>
    simp only [first?] at h
    split at h
    · rename_i hword
      cases h
      exact .word ⟨c, _, rfl, hword, fun _ => List.mem_takeWhile_imp⟩ (stops_dropWhile _ _)
    split at h
    · rename_i hdigit
      cases h
      exact .number (List.cons_ne_nil _ _)
        (List.forall_mem_cons.2 ⟨hdigit, fun _ => List.mem_takeWhile_imp⟩) (stops_dropWhile _ _)
    split at h
    · rename_i hspace
      cases h
      exact .space (List.cons_ne_nil _ _)
        (List.forall_mem_cons.2 ⟨hspace, fun _ => List.mem_takeWhile_imp⟩) (stops_dropWhile _ _)
    split at h
    · rename_i hslashes
      cases h
      obtain ⟨cs, hcs⟩ := List.isPrefixOf_iff_prefix.1 hslashes
      cases hcs
      exact .comment (fun _ => List.mem_takeWhile_imp) (stops_dropWhile _ _)
    · rename_i hslashes
      obtain ⟨mark, kind, hm, rfl, hcs⟩ := symbol?_eq_some_iff.1 h
      refine .symbol hm ?_
      rintro rfl
      -- a slash is not followed by another, since that would have been a comment
      have hmark : ∀ s ∈ TokenKind.symbols, s.2 = .slash → s.1 = ['/'] := by decide
      obtain rfl := hmark _ hm rfl
      rw [hcs] at hslashes
      cases rest with
      | nil => exact stops_nil _
      | cons d rest =>
        rw [stops_cons, beq_eq_false_iff_ne]
        rintro rfl
        exact hslashes (by simp [List.isPrefixOf])

/-- A lexeme is taken off a text where it precedes the rest. -/
theorem Precedes.first? (h : l.Precedes rest) : first? (l.text ++ rest) = some (l, rest) := by
  have hword : ∀ {w}, IsWord w → Stops continuesWord rest →
      Lexeme.first? (w ++ rest) = some (⟨some (.ofWord w), w⟩, rest) := by
    rintro _ ⟨c, cs, rfl, hc, hcs⟩ hrest
    rw [List.cons_append, Lexeme.first?, if_pos hc, takeWhile_of_stops hcs hrest,
      dropWhile_of_stops hcs hrest]
  cases h with
  | keyword hw hkind hrest => rw [hword hw hrest, ofWord_of_mem hkind]
  | identifier hw hnot hrest => rw [hword hw hrest, ofWord_of_not_mem hnot]
  | @number ds _ hne hds hrest =>
    obtain ⟨d, ds, rfl⟩ := List.exists_cons_of_ne_nil hne
    obtain ⟨hd, hds⟩ := List.forall_mem_cons.1 hds
    rw [List.cons_append, Lexeme.first?, if_neg (by simp [startsWord_of_isDigit hd]), if_pos hd,
      takeWhile_of_stops hds hrest, dropWhile_of_stops hds hrest]
  | @space ws _ hne hws hrest =>
    obtain ⟨c, ws, rfl⟩ := List.exists_cons_of_ne_nil hne
    obtain ⟨hc, hws⟩ := List.forall_mem_cons.1 hws
    obtain ⟨hword, hdigit⟩ := classes_of_isWhiteSpace hc
    rw [List.cons_append, Lexeme.first?, if_neg (by simp [hword]), if_neg (by simp [hdigit]),
      if_pos hc, takeWhile_of_stops hws hrest, dropWhile_of_stops hws hrest]
  | @comment cs _ hcs hrest =>
    have hcs : ∀ c ∈ '/' :: cs, continuesComment c = true :=
      List.forall_mem_cons.2 ⟨by decide, hcs⟩
    have hslashes : ['/', '/'].isPrefixOf ('/' :: ('/' :: cs ++ rest)) = true := by
      simp [List.isPrefixOf]
    rw [List.cons_append, Lexeme.first?, if_neg (by decide), if_neg (by decide),
      if_neg (by decide), if_pos hslashes, takeWhile_of_stops hcs hrest,
      dropWhile_of_stops hcs hrest]
  | @symbol mark _ kind hm hslash =>
    have hsymbol : symbol? (mark ++ rest) = some (⟨some kind, mark⟩, rest) :=
      symbol?_eq_some_iff.2 ⟨mark, kind, hm, rfl, rfl⟩
    obtain ⟨c, hc, hword, hdigit, hspace, hcomment⟩ := symbols_begin _ hm
    obtain ⟨mark, rfl⟩ : ∃ cs, mark = c :: cs := List.head?_eq_some_iff.1 hc
    have hslashes : ¬ ['/', '/'].isPrefixOf (c :: (mark ++ rest)) = true := by
      rw [List.isPrefixOf_iff_prefix, List.cons_prefix_cons]
      rintro ⟨rfl, hbegins⟩
      cases hcomment rfl
      obtain ⟨tail, rfl⟩ : ∃ tail, rest = '/' :: tail := by
        obtain ⟨tail, htail⟩ := hbegins
        exact ⟨tail, htail.symm⟩
      simpa [stops_cons] using hslash rfl
    rw [List.cons_append, Lexeme.first?, if_neg (by simp [hword]), if_neg (by simp [hdigit]),
      if_neg (by simp [hspace]), if_neg hslashes, ← List.cons_append, hsymbol]

/-- **The lexeme at the front of a text** is the one that precedes the rest. -/
theorem first?_eq_some_iff : first? cs = some (l, rest) ↔ cs = l.text ++ rest ∧ l.Precedes rest := by
  constructor
  · exact fun h => ⟨(first?_text h).symm, precedes_of_first? h⟩
  · rintro ⟨rfl, h⟩
    exact h.first?

/-! ### All lexemes -/

theorem split_of_none (h : first? cs = none) : split cs = ([], cs) := by
  rw [split]
  split
  · rfl
  · rename_i hsome
    rw [h] at hsome
    cases hsome

theorem split_of_some (h : first? cs = some (l, rest)) :
    split cs = (l :: (split rest).1, (split rest).2) := by
  rw [split]
  split
  · rename_i hnone
    rw [h] at hnone
    cases hnone
  · rename_i hsome
    rw [h] at hsome
    cases hsome
    rfl

theorem splits_split (cs : List Char) : Splits cs (split cs).1 (split cs).2 ∧
    first? (split cs).2 = none := by
  fun_induction split cs with
  | case1 cs hnone => exact ⟨.nil, hnone⟩
  | case2 cs l rest hsome hlt ls left hsplit ih =>
    rw [hsplit] at ih
    obtain ⟨rfl, hl⟩ := first?_eq_some_iff.1 hsome
    exact ⟨.cons hl ih.1, ih.2⟩

/-- Lexemes are taken off as far as that goes. -/
theorem split_eq_iff : split cs = (ls, left) ↔ Splits cs ls left ∧ first? left = none := by
  constructor
  · intro h
    have hsplits := splits_split cs
    rwa [h] at hsplits
  · rintro ⟨h, hnone⟩
    induction h with
    | nil => exact split_of_none hnone
    | cons hl _ ih => rw [split_of_some hl.first?, ih hnone]

/-- A text splits into lexemes in one way. -/
theorem Splits.unique (h : Splits cs ls []) (h' : Splits cs ls' []) : ls = ls' := by
  have hsplit := split_eq_iff.2 ⟨h, rfl⟩
  rw [split_eq_iff.2 ⟨h', rfl⟩] at hsplit
  exact (Prod.mk.inj hsplit).1.symm

theorem Splits.text_eq (h : Splits cs ls left) : cs = ls.flatMap text ++ left := by
  induction h with
  | nil => rfl
  | cons _ _ ih => rw [List.flatMap_cons, List.append_assoc, ← ih]

end Lexeme

end SimpleLang
