import SimpleLang.Proofs.Parse.Elsewhere
import SimpleLang.Proofs.Parse.Recognition
import SimpleLang.Proofs.Token.Placing

/-!
# Sources one after another

Two sources that can be read can be read one after the other, with a newline between them, and what
is read is what the two give (`Program.ofTokens_joined`).  Nothing reaches across the newline.  It
ends every lexeme but white space, and white space has no tokens (`Lexeme.Splits.joined`); a
conditional at the end of the first source finds no `else` at the beginning of the second, since no
item begins with one.
-/

namespace SimpleLang

/-! ### Further on -/

/-- A position some bytes further on. -/
def Position.shift (n : Nat) (p : Position) : Position := .ofNat p.file (p.offset.toNat + n)

@[simp] theorem Position.shift_ofNat (file : String) (m n : Nat) :
    (ofNat file m).shift n = ofNat file (m + n) := by
  simp [shift, ofNat, ← UInt32.toNat_inj]

/-- Everything some bytes further on. -/
def Relocation.shift (n : Nat) : Relocation := ⟨.shift n, .shift n⟩

/-- Lexemes further on have their tokens further on. -/
theorem Token.placed_shift (file : String) (offset n : Nat) (ls : List Lexeme) :
    placed file (offset + n) ls = (placed file offset ls).map (relocate (.shift n)) := by
  induction ls generalizing offset with
  | nil => rfl
  | cons l ls ih =>
    have hnext : offset + n + Text.byteSize l.text = offset + Text.byteSize l.text + n := by omega
    rw [placed, placed, List.map_append, ← ih, hnext]
    cases hkind : l.kind with
    | none => simp [ofLexeme?, hkind]
    | some kind =>
      simp [ofLexeme?, hkind, relocate, Span.relocate, Relocation.shift, hnext]

/-! ### Lexemes across a newline -/

namespace Lexeme

variable {cs ds rest rest' left ws : List Char} {l : Lexeme} {ls ls' : List Lexeme}
  {p : Char → Bool}

/-- A lexeme may end where it cannot go on either. -/
theorem Precedes.of_stops (h : l.Precedes rest) (hstops : ∀ p, Stops p rest → Stops p rest') :
    l.Precedes rest' := by
  cases h with
  | keyword hw hkind hrest => exact .keyword hw hkind (hstops _ hrest)
  | identifier hw hnot hrest => exact .identifier hw hnot (hstops _ hrest)
  | number hne hds hrest => exact .number hne hds (hstops _ hrest)
  | symbol hm hslash => exact .symbol hm fun hkind => hstops _ (hslash hkind)
  | space hne hws hrest => exact .space hne hws (hstops _ hrest)
  | comment hcs hrest => exact .comment hcs (hstops _ hrest)

/-- Only the first character of what follows is looked at. -/
theorem Precedes.of_head_eq (h : l.Precedes rest) (hhead : rest'.head? = rest.head?) :
    l.Precedes rest' :=
  h.of_stops fun p hp => by rwa [Stops, hhead]

/-- A newline ends every lexeme but white space. -/
theorem Precedes.newline (h : l.Precedes []) (cs : List Char) : l.Precedes ('\n' :: cs) ∨
    ∃ ws, l = ⟨none, ws⟩ ∧ ∀ c ∈ ws, Text.isWhiteSpace c = true := by
  have hstops : ∀ p : Char → Bool, p '\n' = false → Stops p ('\n' :: cs) :=
    fun p hp => stops_cons.2 hp
  cases h with
  | keyword hw hkind _ => exact .inl (.keyword hw hkind (hstops _ (by decide)))
  | identifier hw hnot _ => exact .inl (.identifier hw hnot (hstops _ (by decide)))
  | number hne hds _ => exact .inl (.number hne hds (hstops _ (by decide)))
  | symbol hm _ => exact .inl (.symbol hm fun _ => hstops _ (by decide))
  | space _ hws _ => exact .inr ⟨_, rfl, hws⟩
  | comment hcs _ => exact .inl (.comment hcs (hstops _ (by decide)))

/-- A lexeme that begins with white space is white space. -/
theorem Precedes.space_or_stops (h : l.Precedes rest) :
    (∃ ws, l = ⟨none, ws⟩ ∧ (∀ c ∈ ws, Text.isWhiteSpace c = true) ∧
      Stops Text.isWhiteSpace rest) ∨
    Stops Text.isWhiteSpace (l.text ++ rest) := by
  have hword : ∀ {w}, IsWord w → Stops Text.isWhiteSpace (w ++ rest) := by
    rintro _ ⟨c, cs, rfl, hc, -⟩
    refine stops_cons.2 (Bool.eq_false_iff.2 fun hspace => ?_)
    simp [(classes_of_isWhiteSpace hspace).1] at hc
  cases h with
  | keyword hw _ _ => exact .inr (hword hw)
  | identifier hw _ _ => exact .inr (hword hw)
  | @number ds _ hne hds _ =>
    obtain ⟨d, ds, rfl⟩ := List.exists_cons_of_ne_nil hne
    refine .inr (stops_cons.2 (Bool.eq_false_iff.2 fun hspace => ?_))
    simp [(classes_of_isWhiteSpace hspace).2] at hds
  | @symbol mark _ _ hm _ =>
    obtain ⟨c, hc, -, -, hspace, -⟩ := symbols_begin _ hm
    obtain ⟨mark, rfl⟩ : ∃ cs, mark = c :: cs := List.head?_eq_some_iff.1 hc
    exact .inr (stops_cons.2 hspace)
  | space _ hws hrest => exact .inl ⟨_, rfl, hws, hrest⟩
  | comment _ _ => exact .inr (stops_cons.2 (by decide))

/-- White space in front of a text is a lexeme of its own, or goes to one that is there. -/
theorem Splits.pad (h : Splits cs ls left) (hleft : Stops Text.isWhiteSpace left) (hne : ws ≠ [])
    (hws : ∀ c ∈ ws, Text.isWhiteSpace c = true) : ∃ ls', Splits (ws ++ cs) ls' left ∧
      ∀ file offset, Token.placed file offset ls' =
        Token.placed file (offset + Text.byteSize ws) ls := by
  cases h with
  | nil => exact ⟨[⟨none, ws⟩], .cons (.space hne hws hleft) .nil, fun _ _ => rfl⟩
  | @cons l rest ls _ hl hrest =>
    rcases hl.space_or_stops with ⟨ws', rfl, hws', hstops⟩ | hstops
    · refine ⟨⟨none, ws ++ ws'⟩ :: ls, ?_, fun file offset => ?_⟩
      · rw [← List.append_assoc]
        exact .cons (.space (by simp [hne]) (List.forall_mem_append.2 ⟨hws, hws'⟩) hstops) hrest
      · simp [Token.placed, Token.ofLexeme?, Nat.add_assoc]
    · exact ⟨⟨none, ws⟩ :: l :: ls, .cons (.space hne hws hstops) (.cons hl hrest),
        fun _ _ => rfl⟩

/-- The lexemes of two texts with a newline between them, as far as the second one has any.  What is
left of the second one must not be white space, which the newline would add to. -/
theorem Splits.joined_left (h : Splits cs ls []) (h' : Splits ds ls' left)
    (hleft : Stops Text.isWhiteSpace left) :
    ∃ ls'', Splits (cs ++ '\n' :: ds) ls'' left ∧ ∀ file offset,
      Token.placed file offset ls'' = Token.placed file offset ls ++
        Token.placed file (offset + (Text.byteSize cs + 1)) ls' := by
  have hnewline : Text.isWhiteSpace '\n' = true := by decide
  generalize hnil : ([] : List Char) = nothing at h
  induction h with
  | nil =>
    subst hnil
    obtain ⟨ls'', hsplits, hplaced⟩ :=
      h'.pad hleft (List.cons_ne_nil '\n' []) (by simpa using hnewline)
    exact ⟨ls'', hsplits, fun file offset => hplaced file offset⟩
  | @cons l rest ls _ hl hrest ih =>
    obtain ⟨ls'', hsplits, hplaced⟩ := ih hnil
    subst hnil
    -- the first lexeme is as it was, unless it is white space that the newline adds to
    have hcases : l.Precedes (rest ++ '\n' :: ds) ∨ rest = [] ∧ ∃ ws, l = ⟨none, ws⟩ ∧
        ∀ c ∈ ws, Text.isWhiteSpace c = true := by
      cases rest with
      | nil => exact (hl.newline ds).imp_right fun h => ⟨rfl, h⟩
      | cons c rest => exact .inl (hl.of_head_eq rfl)
    rcases hcases with hl | ⟨rfl, ws, rfl, hws⟩
    · refine ⟨l :: ls'', ?_, fun file offset => ?_⟩
      · rw [List.append_assoc]
        exact .cons hl hsplits
      · simp only [Token.placed, hplaced, Text.byteSize_append, List.append_assoc, Nat.add_assoc]
    · obtain rfl : ls = [] := by
        rw [hrest.unique .nil]
      have hne : ws ++ ['\n'] ≠ [] := by simp
      obtain ⟨ls'', hsplits, hplaced⟩ :=
        h'.pad hleft hne (List.forall_mem_append.2 ⟨hws, by simpa using hnewline⟩)
      refine ⟨ls'', by simpa using hsplits, fun file offset => ?_⟩
      rw [hplaced, Text.byteSize_append, List.append_nil]
      rfl

/-- The lexemes of two texts with a newline between them. -/
theorem Splits.joined (h : Splits cs ls []) (h' : Splits ds ls' []) :
    ∃ ls'', Splits (cs ++ '\n' :: ds) ls'' [] ∧ ∀ file offset,
      Token.placed file offset ls'' = Token.placed file offset ls ++
        Token.placed file (offset + (Text.byteSize cs + 1)) ls' :=
  h.joined_left h' (stops_nil _)

end Lexeme

/-! ### Programs -/

namespace Program

open Phrase

theorem ofItems_append (items items' : List Item) :
    ofItems (items ++ items') = ⟨(ofItems items).functions ++ (ofItems items').functions,
      (ofItems items).globals ++ (ofItems items').globals,
      (ofItems items).main ++ (ofItems items').main⟩ := by
  simp [ofItems]

/-- The program of a source, from its lexemes. -/
theorem ofTokens_place_iff {file : String} {cs : List Char} {ls : List Lexeme} {p : Program}
    (h : Lexeme.Splits cs ls []) (offset : Nat) :
    ofTokens (Token.place file offset ls) file = .ok p ↔
      ∃ items, Sequence NearestTopLevel (Token.placed file offset ls) items ∧
        p = .ofItems items := by
  rw [Token.place_eq]
  exact ofTokens_eq_ok_iff (fun t ht => Token.kind_ne_eof_of_mem_placed h.kind_ne_eof ht) rfl

/-- **Reading is compositional.**  Two sources that are read, each on its own, are read one after
the other with a newline between them, and give the functions, the globals and the statements of the
first followed by those of the second, with the spans of the second as many bytes further on as
stand before it. -/
theorem ofTokens_joined (a b file : String) (tokensA tokensB : List Token) (pa pb : Program)
    (hscanA : Token.scan a file = .ok tokensA) (hreadA : ofTokens tokensA file = .ok pa)
    (hscanB : Token.scan b file = .ok tokensB) (hreadB : ofTokens tokensB file = .ok pb) :
    ∃ tokens p, Token.scan (a ++ "\n" ++ b) file = .ok tokens ∧ ofTokens tokens file = .ok p ∧
      let moved := pb.relocate (.shift (Text.byteSize a.toList + 1))
      p.functions = pa.functions ++ moved.functions ∧ p.globals = pa.globals ++ moved.globals ∧
        p.main = pa.main ++ moved.main := by
  obtain ⟨la, hla, rfl⟩ := Token.scan_eq_ok_iff.1 hscanA
  obtain ⟨lb, hlb, rfl⟩ := Token.scan_eq_ok_iff.1 hscanB
  obtain ⟨itemsA, hitemsA, rfl⟩ := (ofTokens_place_iff hla 0).1 hreadA
  obtain ⟨itemsB, hitemsB, rfl⟩ := (ofTokens_place_iff hlb 0).1 hreadB
  obtain ⟨ls, hls, hplaced⟩ := hla.joined hlb
  let n := Text.byteSize a.toList + 1
  have hitems : Sequence NearestTopLevel (Token.placed file 0 ls)
      (itemsA ++ itemsB.map (Item.relocate (.shift n))) := by
    rw [hplaced, Token.placed_shift]
    exact hitemsA.append hitemsB.relocate
  have hscan : Token.scan (a ++ "\n" ++ b) file = .ok (Token.place file 0 ls) :=
    Token.scan_eq_ok_iff.2 ⟨ls, by simpa using hls, rfl⟩
  refine ⟨_, _, hscan, (ofTokens_place_iff hls 0).2 ⟨_, hitems, rfl⟩, ?_⟩
  rw [ofItems_append, ofItems_relocate]
  exact ⟨rfl, rfl, rfl⟩

/-- An open conditional and an open comment before a declaration. -/
theorem ofTokens_joined_openEnd : ∃ tokens p,
    Token.scan "if c x:=1;//\nbool c;" "f" = .ok tokens ∧ ofTokens tokens "f" = .ok p ∧
      p.functions = [] ∧ p.globals = [⟨"c", some .bool, ⟨⟨13, "f"⟩, ⟨19, "f"⟩⟩⟩] ∧
      p.main = [.ifThen ⟨⟨0, "f"⟩, ⟨10, "f"⟩⟩ (.name ⟨⟨3, "f"⟩, ⟨4, "f"⟩⟩ "c")
        (.assign ⟨⟨5, "f"⟩, ⟨10, "f"⟩⟩ "x" (.int ⟨⟨8, "f"⟩, ⟨9, "f"⟩⟩ 1))] := by
  have hscanA : Token.scan "if c x:=1;//" "f" = .ok
      [⟨.ifKw, "if", ⟨⟨0, "f"⟩, ⟨2, "f"⟩⟩⟩, ⟨.identifier, "c", ⟨⟨3, "f"⟩, ⟨4, "f"⟩⟩⟩,
        ⟨.identifier, "x", ⟨⟨5, "f"⟩, ⟨6, "f"⟩⟩⟩, ⟨.assignment, ":=", ⟨⟨6, "f"⟩, ⟨8, "f"⟩⟩⟩,
        ⟨.number, "1", ⟨⟨8, "f"⟩, ⟨9, "f"⟩⟩⟩, ⟨.semicolon, ";", ⟨⟨9, "f"⟩, ⟨10, "f"⟩⟩⟩,
        .endOfInput ⟨12, "f"⟩] := by decide +kernel
  have hscanB : Token.scan "bool c;" "f" = .ok
      [⟨.boolKw, "bool", ⟨⟨0, "f"⟩, ⟨4, "f"⟩⟩⟩, ⟨.identifier, "c", ⟨⟨5, "f"⟩, ⟨6, "f"⟩⟩⟩,
        ⟨.semicolon, ";", ⟨⟨6, "f"⟩, ⟨7, "f"⟩⟩⟩, .endOfInput ⟨7, "f"⟩] := by decide +kernel
  exact ofTokens_joined "if c x:=1;//" "bool c;" "f" _ _ _ _ hscanA rfl hscanB rfl

end Program

end SimpleLang
