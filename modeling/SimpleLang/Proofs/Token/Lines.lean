import SimpleLang.Proofs.Token.Unrecognised
import Mathlib.Data.List.Forall2

/-!
# Scanning line by line

A newline separates whatever stands before it from whatever comes after it: the tokens of two texts
with a newline between them are those of the first and then those of the second, as many bytes
further on as stand before it, and what stops the scan of one of the two stops the scan of both
together (`Token.scan_joined`).

No mark holds a newline, so what begins no lexeme in the first text begins none when a newline comes
after it (`Lexeme.first?_eq_none_append`); the second text is reached with no lexeme of the first
still open (`Lexeme.Splits.joined_left`).
-/

namespace SimpleLang

/-! ### Further on, without a wrap -/

/-- The second position is `n` bytes after the first, in the same file. -/
structure Position.IsAfter (n : Nat) (p q : Position) : Prop where
  offset : q.offset.toNat = p.offset.toNat + n
  file : q.file = p.file

theorem Position.isAfter_ofNat (file : String) {m n : Nat} (h : m + n < UInt32.size) :
    (ofNat file m).IsAfter n (ofNat file (m + n)) where
  offset := by rw [toNat_ofNat_of_lt file h, toNat_ofNat_of_lt file (by omega)]
  file := rfl

/-- The second token is like the first, `n` bytes after it. -/
structure Token.IsAfter (n : Nat) (t u : Token) : Prop where
  kind : u.kind = t.kind
  text : u.text = t.text
  start : t.span.start.IsAfter n u.span.start
  stop : t.span.stop.IsAfter n u.span.stop

/-- Lexemes further on have their tokens further on, the end of input included. -/
theorem Token.place_isAfter (file : String) {offset n : Nat} {ls : List Lexeme}
    (h : offset + Lexeme.byteSize ls + n < UInt32.size) :
    List.Forall₂ (IsAfter n) (place file offset ls) (place file (offset + n) ls) := by
  induction ls generalizing offset with
  | nil =>
    have hend : (Position.ofNat file offset).IsAfter n (.ofNat file (offset + n)) :=
      Position.isAfter_ofNat file (by simpa [Lexeme.byteSize] using h)
    exact .cons ⟨rfl, rfl, hend, hend⟩ .nil
  | cons l ls ih =>
    rw [Lexeme.byteSize_cons, ← Nat.add_assoc] at h
    have hrest := ih h
    have hnext : offset + n + Text.byteSize l.text = offset + Text.byteSize l.text + n := by omega
    simp only [place, hnext]
    cases l.kind with
    | none => exact hrest
    | some kind =>
      exact .cons ⟨rfl, rfl, Position.isAfter_ofNat file (by omega),
        Position.isAfter_ofNat file (by omega)⟩ hrest

/-! ### Before a newline -/

theorem Text.byteSize_joined (cs ds : List Char) :
    byteSize (cs ++ '\n' :: ds) = byteSize ds + (byteSize cs + 1) := by
  have hnewline : '\n'.utf8Size = 1 := rfl
  rw [byteSize_append, byteSize_cons, hnewline]
  omega

namespace Lexeme

variable {c : Char} {cs ds rest left mark : List Char} {ls ls' : List Lexeme}

theorem prefix_of_prefix_append_cons (hc : c ∉ mark) (h : mark <+: cs ++ c :: ds) :
    mark <+: cs := by
  rcases List.prefix_or_prefix_of_prefix h (List.prefix_append cs (c :: ds)) with h' | ⟨more, rfl⟩
  · exact h'
  · -- what goes on after `cs` begins with `c`
    rw [List.prefix_append_right_inj] at h
    cases more with
    | nil => simp
    | cons x more =>
      obtain ⟨rfl, -⟩ := List.cons_prefix_cons.1 h
      simp at hc

/-- A character that begins no lexeme begins none when a newline and more come after the text. -/
theorem first?_eq_none_append (h : first? (c :: cs) = none) (ds : List Char) :
    first? (c :: (cs ++ '\n' :: ds)) = none := by
  have hsymbols : ∀ s ∈ TokenKind.symbols, '\n' ∉ s.1 := by decide
  obtain ⟨hword, hdigit, hspace, hnone⟩ := first?_eq_none_iff.1 h
  refine first?_eq_none_iff.2 ⟨hword, hdigit, hspace, fun s hs hbegins => hnone s hs ?_⟩
  rw [← List.cons_append] at hbegins
  exact prefix_of_prefix_append_cons (hsymbols s hs) hbegins

/-- White space does not begin where no lexeme does. -/
theorem stops_of_first?_eq_none (h : first? (c :: cs) = none) :
    Stops Text.isWhiteSpace (c :: cs) :=
  stops_cons.2 (first?_eq_none_iff.1 h).2.2.1

/-- The bytes of the lexemes of two texts with a newline between them. -/
theorem Splits.byteSize_joined (h : Splits ds ls left) (h' : Splits (cs ++ '\n' :: ds) ls' left) :
    byteSize ls' = byteSize ls + (Text.byteSize cs + 1) := by
  have hsize := h'.byteSize_eq
  rw [Text.byteSize_joined, h.byteSize_eq] at hsize
  omega

end Lexeme

namespace Token

variable {a file : String}

/-- What stops the scan of a text stops it when a newline and more come after the text. -/
theorem scan_joined_of_error {d : Diagnostic} (h : scan a file = .error d) (b : String) :
    scan (a ++ "\n" ++ b) file = .error d := by
  obtain ⟨ls, c, rest, hls, hnone, rfl⟩ := scan_eq_error_iff.1 h
  refine scan_eq_error_iff.2
    ⟨ls, c, rest ++ '\n' :: b.toList, ?_, Lexeme.first?_eq_none_append hnone b.toList, rfl⟩
  have htext : (a ++ "\n" ++ b).toList =
      ls.flatMap Lexeme.text ++ c :: (rest ++ '\n' :: b.toList) := by
    simp [hls.text_eq]
  rw [htext]
  exact hls.follow rfl

/-- **Scanning goes line by line.**  In two texts with a newline between them, of fewer than 2^32
bytes together, what stops the scan of the first text stops the scan.  If the first text has tokens,
what stops the scan of the second one does, as many bytes further on as the first text and the
newline have.  If both have tokens, the tokens are those of the first without the end of input and
those of the second as much further on. -/
theorem scan_joined (a b file : String)
    (hsize : Text.byteSize (a ++ "\n" ++ b).toList < UInt32.size) :
    (∀ d, scan a file = .error d → scan (a ++ "\n" ++ b) file = .error d) ∧
    (∀ ts d, scan a file = .ok ts → scan b file = .error d → ∃ d',
      scan (a ++ "\n" ++ b) file = .error d' ∧ d'.problem = d.problem ∧
        d.position.IsAfter (Text.byteSize a.toList + 1) d'.position) ∧
    ∀ ts us, scan a file = .ok ts → scan b file = .ok us → ∃ ts' e us',
      ts = ts' ++ [e] ∧ e.kind = .eof ∧ (∀ t ∈ ts', t.kind ≠ .eof) ∧
        scan (a ++ "\n" ++ b) file = .ok (ts' ++ us') ∧
        List.Forall₂ (IsAfter (Text.byteSize a.toList + 1)) us us' := by
  have htext : (a ++ "\n" ++ b).toList = a.toList ++ '\n' :: b.toList := by simp
  rw [htext, Text.byteSize_joined] at hsize
  refine ⟨fun d h => scan_joined_of_error h b, fun ts d ha hb => ?_, fun ts us ha hb => ?_⟩
  · obtain ⟨la, hla, rfl⟩ := scan_eq_ok_iff.1 ha
    obtain ⟨lb, c, rest, hlb, hnone, rfl⟩ := scan_eq_error_iff.1 hb
    obtain ⟨ls, hls, -⟩ := hla.joined_left hlb (Lexeme.stops_of_first?_eq_none hnone)
    refine ⟨_, scan_eq_error_iff.2 ⟨ls, c, rest, htext ▸ hls, hnone, rfl⟩, rfl, ?_⟩
    rw [hlb.byteSize_eq] at hsize
    rw [hlb.byteSize_joined hls]
    exact Position.isAfter_ofNat file (by omega)
  · obtain ⟨la, hla, rfl⟩ := scan_eq_ok_iff.1 ha
    obtain ⟨lb, hlb, rfl⟩ := scan_eq_ok_iff.1 hb
    obtain ⟨ls, hls, hplaced⟩ := hla.joined hlb
    have hplace : place file 0 ls =
        placed file 0 la ++ place file (0 + (Text.byteSize a.toList + 1)) lb := by
      rw [place_eq, place_eq, hplaced, hlb.byteSize_joined hls, List.append_assoc, Nat.zero_add,
        Nat.zero_add, Nat.add_comm (Lexeme.byteSize lb)]
    refine ⟨_, _, _, place_eq file 0 la, rfl,
      fun t ht => kind_ne_eof_of_mem_placed hla.kind_ne_eof ht,
      scan_eq_ok_iff.2 ⟨ls, htext ▸ hls, hplace.symm⟩, place_isAfter file ?_⟩
    rw [hlb.byteSize_eq] at hsize
    omega

/-- A comment is ended by the newline, and white space goes on with it; an assignment is cut in two
by it, and half of one comes after it. -/
theorem scan_joined_openEnds :
    (∃ us, scan "x//é\n  y" "f" = .ok (⟨.identifier, "x", ⟨⟨0, "f"⟩, ⟨1, "f"⟩⟩⟩ :: us) ∧
      List.Forall₂ (IsAfter 6)
        [⟨.identifier, "y", ⟨⟨2, "f"⟩, ⟨3, "f"⟩⟩⟩, .endOfInput ⟨3, "f"⟩] us) ∧
    scan "x:\n=" "f" = .error ⟨.unrecognisedToken ":", ⟨1, "f"⟩⟩ ∧
    ∃ d, scan "x//é\n :" "f" = .error d ∧ d.problem = .unrecognisedToken ":" ∧
      Position.IsAfter 6 ⟨1, "f"⟩ d.position := by
  have hcomment : scan "x//é" "f" = .ok [⟨.identifier, "x", ⟨⟨0, "f"⟩, ⟨1, "f"⟩⟩⟩,
      .endOfInput ⟨5, "f"⟩] := by decide +kernel
  have hspace : scan "  y" "f" = .ok [⟨.identifier, "y", ⟨⟨2, "f"⟩, ⟨3, "f"⟩⟩⟩,
      .endOfInput ⟨3, "f"⟩] := by decide +kernel
  have hcut : scan "x:" "f" = .error ⟨.unrecognisedToken ":", ⟨1, "f"⟩⟩ := by decide +kernel
  have hhalf : scan " :" "f" = .error ⟨.unrecognisedToken ":", ⟨1, "f"⟩⟩ := by decide +kernel
  refine ⟨?_, (scan_joined "x:" "=" "f" (by decide +kernel)).1 _ hcut,
    (scan_joined "x//é" " :" "f" (by decide +kernel)).2.1 _ _ hcomment hhalf⟩
  obtain ⟨ts, e, us, hts, -, -, hscan, hus⟩ :=
    (scan_joined "x//é" "  y" "f" (by decide +kernel)).2.2 _ _ hcomment hspace
  change [_] ++ [_] = ts ++ [e] at hts
  obtain ⟨rfl, -⟩ := List.append_inj' hts rfl
  exact ⟨us, hscan, hus⟩

end Token

end SimpleLang
