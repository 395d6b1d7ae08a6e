import SimpleLang.Proofs.Source.Offsets
import SimpleLang.Proofs.Token.Splitting

/-!
# The tokens of a text

A text has tokens exactly if it splits into lexemes, and then its tokens are the lexemes that are no
layout, each where it stands, and the end of input (`Token.scan_exact`).  Nothing is lost: the text
of a token is the text between its two offsets, and what lies between tokens is layout.

Offsets are counted modulo 2^32.  In a text of fewer bytes they are exact (`Position.toNat_ofNat`).
-/

namespace SimpleLang

/-- The span goes from byte `a` to byte `b` of a file, counted in 32 bits. -/
structure Span.Covers (file : String) (a b : Nat) (s : Span) : Prop where
  /-- Both ends are in the file. -/
  files : s.start.file = file ∧ s.stop.file = file
  /-- It begins at `a`. -/
  start : s.start.offset.toNat = a % UInt32.size
  /-- It ends at `b`. -/
  stop : s.stop.offset.toNat = b % UInt32.size

/-! ### Tokens and lexemes -/

namespace Lexeme

variable {l : Lexeme} {rest : List Char}

theorem byteSize_cons (l : Lexeme) (ls : List Lexeme) :
    byteSize (l :: ls) = Text.byteSize l.text + byteSize ls := by
  simp [byteSize]

theorem Splits.byteSize_eq {cs left : List Char} {ls : List Lexeme} (h : Splits cs ls left) :
    Text.byteSize cs = byteSize ls + Text.byteSize left := by
  rw [h.text_eq, Text.byteSize_append, byteSize]

/-- No lexeme is the end of input. -/
theorem Precedes.kind_ne_eof (h : l.Precedes rest) : l.kind ≠ some .eof := by
  have hreserved : ∀ e ∈ TokenKind.reserved, e.2 ≠ .eof := by decide
  have hsymbols : ∀ e ∈ TokenKind.symbols, e.2 ≠ .eof := by decide
  cases h with
  | keyword _ hkind _ => simpa using hreserved _ hkind
  | symbol hm _ => simpa using hsymbols _ hm
  | _ => simp

theorem Splits.kind_ne_eof {cs left : List Char} {ls : List Lexeme} (h : Splits cs ls left) :
    ∀ l ∈ ls, l.kind ≠ some .eof := by
  induction h with
  | nil => simp
  | cons hl _ ih => exact List.forall_mem_cons.2 ⟨hl.kind_ne_eof, ih⟩

end Lexeme

namespace Token

variable {file source : String} {offset : Nat} {ls : List Lexeme} {tokens : List Token} {t : Token}

/-- The token of a lexeme that begins `offset` bytes into a file; layout has none. -/
def ofLexeme? (file : String) (offset : Nat) (l : Lexeme) : Option Token :=
  l.kind.map fun kind => ⟨kind, String.ofList l.text,
    ⟨.ofNat file offset, .ofNat file (offset + Text.byteSize l.text)⟩⟩

/-- The tokens of some lexemes that begin `offset` bytes into a file, without the end of input. -/
def placed (file : String) : Nat → List Lexeme → List Token
  | _, [] => []
  | offset, l :: ls =>
    (ofLexeme? file offset l).toList ++ placed file (offset + Text.byteSize l.text) ls

theorem place_eq (file : String) (offset : Nat) (ls : List Lexeme) :
    place file offset ls =
      placed file offset ls ++ [endOfInput (.ofNat file (offset + Lexeme.byteSize ls))] := by
  induction ls generalizing offset with
  | nil => rfl
  | cons l ls ih =>
    rw [place, placed, Lexeme.byteSize_cons, ← Nat.add_assoc, List.append_assoc, ← ih, ofLexeme?]
    cases l.kind <;> rfl

theorem placed_append (file : String) (offset : Nat) (ls ls' : List Lexeme) :
    placed file offset (ls ++ ls') =
      placed file offset ls ++ placed file (offset + Lexeme.byteSize ls) ls' := by
  induction ls generalizing offset with
  | nil => rfl
  | cons l ls ih =>
    rw [List.cons_append, placed, placed, ih, Lexeme.byteSize_cons, List.append_assoc,
      Nat.add_assoc]

theorem length_placed (file : String) (offset : Nat) (ls : List Lexeme) :
    (placed file offset ls).length = (ls.filterMap Lexeme.kind).length := by
  induction ls generalizing offset with
  | nil => rfl
  | cons l ls ih =>
    rw [placed, List.length_append, ih, List.filterMap_cons, ofLexeme?]
    cases l.kind with
    | none => simp
    | some kind => simp [Nat.add_comm]

/-- A token that is placed is that of a lexeme. -/
theorem exists_of_mem_placed (h : t ∈ placed file offset ls) : ∃ before l after,
    ls = before ++ l :: after ∧ ofLexeme? file (offset + Lexeme.byteSize before) l = some t := by
  induction ls generalizing offset with
  | nil => cases h
  | cons l ls ih =>
    rcases List.mem_append.1 h with h | h
    · exact ⟨[], l, ls, rfl, by simpa [Lexeme.byteSize] using h⟩
    · obtain ⟨before, l', after, rfl, ht⟩ := ih h
      refine ⟨l :: before, l', after, rfl, ?_⟩
      rwa [Lexeme.byteSize_cons, ← Nat.add_assoc]

theorem kind_ne_eof_of_mem_placed (hls : ∀ l ∈ ls, l.kind ≠ some .eof)
    (h : t ∈ placed file offset ls) : t.kind ≠ .eof := by
  obtain ⟨before, l, after, rfl, ht⟩ := exists_of_mem_placed h
  obtain ⟨kind, hkind, rfl⟩ := Option.map_eq_some_iff.1 ht
  have hne := hls l (by simp)
  rw [hkind] at hne
  exact fun heof => hne (congrArg some heof)

/-! ### Scanning -/

/-- Tokens come from a split of the text. -/
theorem scan_eq_ok_iff : scan source file = .ok tokens ↔ ∃ ls,
    Lexeme.Splits source.toList ls [] ∧ tokens = place file 0 ls := by
  unfold scan
  constructor
  · intro h
    split at h
    · rename_i ls hsplit
      cases h
      exact ⟨ls, (Lexeme.split_eq_iff.1 hsplit).1, rfl⟩
    · cases h
  · rintro ⟨ls, hls, rfl⟩
    rw [Lexeme.split_eq_iff.2 ⟨hls, rfl⟩]

/-- A text without tokens has a place that no lexeme begins at. -/
theorem scan_eq_error_iff {d : Diagnostic} : scan source file = .error d ↔ ∃ ls c rest,
    Lexeme.Splits source.toList ls (c :: rest) ∧ Lexeme.first? (c :: rest) = none ∧
      d = ⟨.unrecognisedToken (String.singleton c), .ofNat file (Lexeme.byteSize ls)⟩ := by
  unfold scan
  constructor
  · intro h
    split at h
    · cases h
    · rename_i ls c rest hsplit
      cases h
      obtain ⟨hls, hnone⟩ := Lexeme.split_eq_iff.1 hsplit
      exact ⟨ls, c, rest, hls, hnone, rfl⟩
  · rintro ⟨ls, c, rest, hls, hnone, rfl⟩
    rw [Lexeme.split_eq_iff.2 ⟨hls, hnone⟩]

/-- The tokens are the lexemes of a text that are no layout, each where it stands, and the end of
input. -/
structure Spell (tokens : List Token) (source file : String) (ls : List Lexeme) : Prop where
  /-- There is one for each lexeme, and one for the end. -/
  length : tokens.length = (ls.filterMap Lexeme.kind).length + 1
  /-- A lexeme gives the token with as many before it as there are lexemes before. -/
  token : ∀ before l after kind, ls = before ++ l :: after → l.kind = some kind →
    ∃ t, tokens[(before.filterMap Lexeme.kind).length]? = some t ∧ t.kind = kind ∧
      t.text.toList = l.text ∧
      t.span.Covers file (Text.byteSize (before.flatMap Lexeme.text))
        (Text.byteSize (before.flatMap Lexeme.text ++ l.text))
  /-- The last token is the end of the text, and no other is. -/
  last : ∃ ts e, tokens = ts ++ [e] ∧ (∀ t ∈ ts, t.kind ≠ .eof) ∧ e.kind = .eof ∧
    e.text = "EOF" ∧
    e.span.Covers file (Text.byteSize source.toList) (Text.byteSize source.toList)

theorem spell_place (h : Lexeme.Splits source.toList ls []) :
    Spell (place file 0 ls) source file ls where
  length := by rw [place_eq, List.length_append, length_placed, List.length_singleton]
  token := by
    rintro before l after kind rfl hkind
    have hplaced : placed file 0 (before ++ l :: after) = placed file 0 before ++
        ⟨kind, String.ofList l.text, ⟨.ofNat file (Lexeme.byteSize before),
          .ofNat file (Lexeme.byteSize before + Text.byteSize l.text)⟩⟩ ::
        placed file (Lexeme.byteSize before + Text.byteSize l.text) after := by
      rw [placed_append, placed, ofLexeme?, hkind, Nat.zero_add]
      rfl
    rw [place_eq, hplaced, ← length_placed file 0 before, List.append_assoc,
      List.getElem?_append_right (Nat.le_refl _), Nat.sub_self]
    refine ⟨_, rfl, rfl, String.toList_ofList, ⟨rfl, rfl⟩, Position.toNat_ofNat _ _, ?_⟩
    rw [Text.byteSize_append]
    exact Position.toNat_ofNat _ _
  last := by
    refine ⟨_, _, place_eq file 0 ls, fun t ht => kind_ne_eof_of_mem_placed h.kind_ne_eof ht,
      rfl, rfl, ?_⟩
    have hsize : 0 + Lexeme.byteSize ls = Text.byteSize source.toList := by
      rw [h.text_eq, List.append_nil, Nat.zero_add, Lexeme.byteSize]
    rw [hsize]
    exact ⟨⟨rfl, rfl⟩, Position.toNat_ofNat _ _, Position.toNat_ofNat _ _⟩

/-- Where a token stands in the text. -/
theorem exists_place_of_mem_scan (h : scan source file = .ok tokens) (ht : t ∈ tokens) :
    ∃ before rest, source.toList = before ++ rest ∧
      t.span.start = .ofNat file (Text.byteSize before) ∧
      ((t.kind = .eof ∧ rest = []) ∨ ∃ after, t.kind ≠ .eof ∧ rest = t.text.toList ++ after ∧
        t.span.stop = .ofNat file (Text.byteSize before + Text.byteSize t.text.toList)) := by
  obtain ⟨ls, hls, rfl⟩ := scan_eq_ok_iff.1 h
  have hsource := hls.text_eq
  rw [place_eq, List.mem_append, List.mem_singleton, Nat.zero_add] at ht
  rcases ht with ht | rfl
  · obtain ⟨before, l, after, rfl, hl⟩ := exists_of_mem_placed ht
    obtain ⟨kind, hkind, rfl⟩ := Option.map_eq_some_iff.1 hl
    refine ⟨before.flatMap Lexeme.text, l.text ++ after.flatMap Lexeme.text, ?_, ?_, .inr
      ⟨after.flatMap Lexeme.text, kind_ne_eof_of_mem_placed hls.kind_ne_eof ht, ?_, ?_⟩⟩
    · simpa using hsource
    · rw [Nat.zero_add, Lexeme.byteSize]
    · rw [String.toList_ofList]
    · rw [Nat.zero_add, Lexeme.byteSize, String.toList_ofList]
  · exact ⟨ls.flatMap Lexeme.text, [], hsource, rfl, .inl ⟨rfl, rfl⟩⟩

/-- **The tokens of a text.**  A text has tokens exactly if it splits into lexemes.  There is only
one split, and the tokens are its lexemes and the end of input.  In a text of fewer than 2^32 bytes,
a token's text is what stands between its offsets. -/
theorem scan_exact (source file : String) :
    ((∃ tokens, scan source file = .ok tokens) ↔ ∃ ls, Lexeme.Splits source.toList ls []) ∧
    (∀ ls ls', Lexeme.Splits source.toList ls [] → Lexeme.Splits source.toList ls' [] → ls = ls') ∧
    ∀ tokens, scan source file = .ok tokens →
      (∀ ls, Lexeme.Splits source.toList ls [] → Spell tokens source file ls) ∧
      (Text.byteSize source.toList < UInt32.size → ∀ t ∈ tokens, t.kind ≠ .eof →
        (∃ after, Text.dropBytes? t.span.start.offset.toNat source.toList =
          some (t.text.toList ++ after)) ∧
        t.span.stop.offset.toNat = t.span.start.offset.toNat + Text.byteSize t.text.toList) := by
  refine ⟨⟨?_, ?_⟩, fun _ _ => Lexeme.Splits.unique, fun tokens h => ⟨?_, ?_⟩⟩
  · rintro ⟨tokens, h⟩
    obtain ⟨ls, hls, -⟩ := scan_eq_ok_iff.1 h
    exact ⟨ls, hls⟩
  · rintro ⟨ls, hls⟩
    exact ⟨_, scan_eq_ok_iff.2 ⟨ls, hls, rfl⟩⟩
  · intro ls hls
    obtain ⟨ls', hls', rfl⟩ := scan_eq_ok_iff.1 h
    rw [hls.unique hls']
    exact spell_place hls'
  · intro hsize t ht hkind
    obtain ⟨before, rest, hsource, hstart, ⟨heof, -⟩ | ⟨after, -, rfl, hstop⟩⟩ :=
      exists_place_of_mem_scan h ht
    · exact absurd heof hkind
    · rw [hsource, Text.byteSize_append, Text.byteSize_append] at hsize
      rw [hstart, hstop, Position.toNat_ofNat_of_lt file (by omega),
        Position.toNat_ofNat_of_lt file (by omega), hsource]
      exact ⟨⟨after, Text.dropBytes?_append _ _⟩, rfl⟩

/-- A word that only begins like a reserved one, a slash that begins no comment and one that does. -/
theorem scan_exact_slashes : ∃ tokens, scan "ifx/2//é\n" "a" = .ok tokens ∧
    Spell tokens "ifx/2//é\n" "a" [⟨some .identifier, ['i', 'f', 'x']⟩, ⟨some .slash, ['/']⟩,
      ⟨some .number, ['2']⟩, ⟨none, ['/', '/', 'é']⟩, ⟨none, ['\n']⟩] := by
  have hsplit := (Lexeme.split_eq_iff.1 (by decide +kernel :
    Lexeme.split "ifx/2//é\n".toList = ([⟨some .identifier, ['i', 'f', 'x']⟩,
      ⟨some .slash, ['/']⟩, ⟨some .number, ['2']⟩, ⟨none, ['/', '/', 'é']⟩, ⟨none, ['\n']⟩],
      []))).1
  obtain ⟨hiff, -, htokens⟩ := scan_exact "ifx/2//é\n" "a"
  obtain ⟨tokens, h⟩ := hiff.2 ⟨_, hsplit⟩
  exact ⟨tokens, h, (htokens tokens h).1 _ hsplit⟩

end Token

end SimpleLang
