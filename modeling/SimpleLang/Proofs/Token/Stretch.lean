import SimpleLang.Proofs.Concatenation

/-!
# Stretches of a text

A stretch of a text is what stands between two of its byte offsets (`Text.slice?`).  Where it begins
with the first character of a token and ends with the last one of another, it has the tokens that
the text has there, as many bytes earlier as stand before the stretch (`Token.exists_stretch`).

A lexeme may end wherever the text ends, so cutting a text between two lexemes changes none of them
(`Lexeme.Splits.take`, `Lexeme.Splits.drop`).
-/

namespace SimpleLang

/-! ### Bytes -/

namespace Text

/-- The first `n` bytes of a text, or nothing when `n` is past the end or inside a character. -/
def takeBytes? : Nat → List Char → Option (List Char)
  | 0, _ => some []
  | _ + 1, [] => none
  | n + 1, c :: cs =>
    if c.utf8Size ≤ n + 1 then (takeBytes? (n + 1 - c.utf8Size) cs).map (c :: ·) else none

/-- The text from byte `a` up to byte `b`, if both are boundaries between characters. -/
def slice? (a b : Nat) (cs : List Char) : Option (List Char) :=
  if a ≤ b then (dropBytes? a cs).bind (takeBytes? (b - a)) else none

/-- Taking the bytes of what stands in front gives it. -/
theorem takeBytes?_append (cs rest : List Char) :
    takeBytes? (byteSize cs) (cs ++ rest) = some cs := by
  induction cs with
  | nil => rw [byteSize_nil, takeBytes?]
  | cons c cs ih =>
    obtain ⟨n, hn⟩ := Nat.exists_eq_add_one.2 (Char.utf8Size_pos c)
    have hsize : byteSize (c :: cs) = n + byteSize cs + 1 := by
      rw [byteSize_cons]
      omega
    rw [hsize, List.cons_append, takeBytes?, if_pos (by omega),
      show n + byteSize cs + 1 - c.utf8Size = byteSize cs by omega, ih, Option.map_some]

theorem slice?_append (before part after : List Char) :
    slice? (byteSize before) (byteSize before + byteSize part) (before ++ (part ++ after)) =
      some part := by
  rw [slice?, if_pos (Nat.le_add_right _ _), dropBytes?_append, Option.bind_some,
    Nat.add_sub_cancel_left, takeBytes?_append]

end Text

/-! ### Lexemes -/

namespace Lexeme

variable {cs rest left : List Char} {l : Lexeme} {ls ls' : List Lexeme}

/-- A lexeme may end where the text after it is cut off. -/
theorem Precedes.of_append (h : l.Precedes (cs ++ rest)) : l.Precedes cs := by
  refine h.of_stops fun p hp => ?_
  cases cs with
  | nil => exact stops_nil p
  | cons c cs => exact hp

/-- The first lexemes of a text are those of the text that they make up. -/
theorem Splits.take (h : Splits cs (ls ++ ls') left) : Splits (ls.flatMap text) ls [] := by
  induction ls generalizing cs with
  | nil => exact .nil
  | cons l ls ih =>
    rw [List.cons_append] at h
    cases h with
    | cons hl hrest =>
      rw [hrest.text_eq, List.flatMap_append, List.append_assoc] at hl
      exact .cons hl.of_append (ih hrest)

/-- The last lexemes of a text are those of the text that they make up. -/
theorem Splits.drop (h : Splits cs (ls ++ ls') []) : Splits (ls'.flatMap text) ls' [] := by
  induction ls generalizing cs with
  | nil =>
    have htext := h.text_eq
    rw [List.append_nil, List.nil_append] at htext
    rwa [htext] at h
  | cons l ls ih =>
    cases h with
    | cons _ hrest => exact ih hrest

end Lexeme

/-! ### Tokens -/

/-- A position so many bytes earlier. -/
def Position.lower (n : UInt32) (p : Position) : Position := { p with offset := p.offset - n }

/-- Everything so many bytes earlier. -/
def Relocation.lower (n : UInt32) : Relocation := ⟨.lower n, .lower n⟩

theorem Position.lower_shift (n : Nat) (p : Position) : (p.shift n).lower (.ofNat n) = p := by
  simp [lower, shift, ofNat]

theorem Position.shift_lower (n : Nat) (p : Position) : (p.lower (.ofNat n)).shift n = p := by
  simp [lower, shift, ofNat]

namespace Token

variable {file : String} {offset n : Nat} {ls : List Lexeme} {pre ts us post : List Token}
  {t : Token} {cs : List Char} {span : Span}

theorem relocate_lower_shift (n : Nat) (t : Token) :
    (t.relocate (.shift n)).relocate (.lower (.ofNat n)) = t := by
  simp [relocate, Span.relocate, Relocation.lower, Relocation.shift, Position.lower_shift]

theorem relocate_shift_lower (n : Nat) (t : Token) :
    (t.relocate (.lower (.ofNat n))).relocate (.shift n) = t := by
  simp [relocate, Span.relocate, Relocation.lower, Relocation.shift, Position.shift_lower]

theorem placed_eq_shift (file : String) (n : Nat) (ls : List Lexeme) :
    placed file n ls = (placed file 0 ls).map (relocate (.shift n)) := by
  have hshift := placed_shift file 0 n ls
  rwa [Nat.zero_add] at hshift

/-- Lexemes further on have the tokens that they have at the beginning, as much earlier. -/
theorem placed_lower (file : String) (n : Nat) (ls : List Lexeme) :
    (placed file n ls).map (relocate (.lower (.ofNat n))) = placed file 0 ls := by
  have hback : relocate (.lower (.ofNat n)) ∘ relocate (.shift n) = id :=
    funext (relocate_lower_shift n)
  rw [placed_eq_shift file n, List.map_map, hback, List.map_id]

/-- A token that is placed is that of a lexeme, after those of the tokens before it. -/
theorem exists_of_placed_eq (h : placed file offset ls = ts ++ t :: us) : ∃ before l after,
    ls = before ++ l :: after ∧ placed file offset before = ts ∧
      ofLexeme? file (offset + Lexeme.byteSize before) l = some t := by
  induction ls generalizing offset ts with
  | nil => simp [placed] at h
  | cons l ls ih =>
    cases hl : ofLexeme? file offset l with
    | none =>
      rw [placed, hl] at h
      obtain ⟨before, l', after, rfl, hbefore, ht⟩ := ih h
      refine ⟨l :: before, l', after, rfl, by rw [placed, hl, hbefore]; rfl, ?_⟩
      rwa [Lexeme.byteSize_cons, ← Nat.add_assoc]
    | some t' =>
      rw [placed, hl] at h
      cases ts with
      | nil =>
        obtain ⟨rfl, -⟩ := List.cons.inj h
        exact ⟨[], l, ls, rfl, rfl, hl⟩
      | cons t₀ ts =>
        obtain ⟨rfl, hts⟩ := List.cons.inj h
        obtain ⟨before, l', after, rfl, hbefore, ht⟩ := ih hts
        refine ⟨l :: before, l', after, rfl, by rw [placed, hl, hbefore]; rfl, ?_⟩
        rwa [Lexeme.byteSize_cons, ← Nat.add_assoc]

/-- The lexemes from that of a token on. -/
theorem exists_from (h : placed file offset ls = ts ++ t :: us) : ∃ before rest,
    ls = before ++ rest ∧ placed file (offset + Lexeme.byteSize before) rest = t :: us ∧
      t.span.start = .ofNat file (offset + Lexeme.byteSize before) := by
  obtain ⟨before, l, after, rfl, rfl, ht⟩ := exists_of_placed_eq h
  rw [placed_append, List.append_cancel_left_eq] at h
  obtain ⟨kind, -, rfl⟩ := Option.map_eq_some_iff.1 ht
  exact ⟨before, l :: after, rfl, h, rfl⟩

/-- The lexemes up to that of a token. -/
theorem exists_upTo (h : placed file offset ls = ts ++ [t] ++ us) : ∃ part after,
    ls = part ++ after ∧ placed file offset part = ts ++ [t] ∧
      t.span.stop = .ofNat file (offset + Lexeme.byteSize part) ∧
      ∃ l ∈ part.getLast?, l.kind ≠ none := by
  rw [List.append_assoc, List.singleton_append] at h
  obtain ⟨before, l, after, rfl, rfl, ht⟩ := exists_of_placed_eq h
  have hpart : placed file offset (before ++ [l]) = placed file offset before ++ [t] := by
    simp [placed_append, placed, ht]
  obtain ⟨kind, hkind, rfl⟩ := Option.map_eq_some_iff.1 ht
  refine ⟨before ++ [l], after, by simp, hpart, ?_, l, by simp, by simp [hkind]⟩
  simp [Lexeme.byteSize, Nat.add_assoc]

/-- The tokens take up a span: the first begins where it begins and the last ends where it ends. -/
structure Spanned (span : Span) (ts : List Token) : Prop where
  /-- The first token. -/
  first : ∃ t us, ts = t :: us ∧ t.span.start = span.start
  /-- The last token. -/
  last : ∃ us t, ts = us ++ [t] ∧ t.span.stop = span.stop

/-- **Tokens are those of their stretch of the text.**  What stands where some of the tokens of a
text stand has these tokens, as many bytes earlier as it begins, and ends with the last of them. -/
theorem exists_stretch (hls : Lexeme.Splits cs ls []) (hsize : Text.byteSize cs < UInt32.size)
    (h : us <:+: placed file 0 ls) (hspan : Spanned span us) : ∃ part ls',
      Text.slice? span.start.offset.toNat span.stop.offset.toNat cs = some part ∧
        Lexeme.Splits part ls' [] ∧
        placed file 0 ls' = us.map (relocate (.lower span.start.offset)) ∧
        ∃ l ∈ ls'.getLast?, l.kind ≠ none := by
  obtain ⟨pre, post, h⟩ := h
  obtain ⟨t, vs, rfl, hstart⟩ := hspan.first
  obtain ⟨ws, t', hlast, hstop⟩ := hspan.last
  rw [List.append_assoc, List.cons_append] at h
  obtain ⟨before, rest, rfl, hrest, ht⟩ := exists_from h.symm
  rw [← List.cons_append, hlast] at hrest
  obtain ⟨part, after, rfl, hpart, ht', hend⟩ := exists_upTo hrest
  rw [Nat.zero_add] at hpart ht ht'
  -- the offsets of a short text are exact
  have htext := hls.text_eq
  rw [List.append_nil, List.flatMap_append, List.flatMap_append] at htext
  have hbytes : Lexeme.byteSize before + Lexeme.byteSize part < UInt32.size := by
    rw [htext, Text.byteSize_append, Text.byteSize_append] at hsize
    exact lt_of_le_of_lt (by simp [Lexeme.byteSize]) hsize
  have ha : span.start.offset.toNat = Lexeme.byteSize before := by
    rw [← hstart, ht]
    exact UInt32.toNat_ofNat_of_lt' (by omega)
  have hb : span.stop.offset.toNat = Lexeme.byteSize before + Lexeme.byteSize part := by
    rw [← hstop, ht']
    exact UInt32.toNat_ofNat_of_lt' hbytes
  refine ⟨part.flatMap Lexeme.text, part, ?_, hls.drop.take, ?_, hend⟩
  · rw [ha, hb, htext]
    exact Text.slice?_append _ _ _
  · rw [hlast, ← hpart, ← hstart, ht]
    exact (placed_lower file _ part).symm

end Token

end SimpleLang
