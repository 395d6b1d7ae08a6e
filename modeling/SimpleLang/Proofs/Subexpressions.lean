import SimpleLang.Proofs.Parse.Parts
import SimpleLang.Proofs.Token.Printing

/-!
# Expressions on their own

What stands at the span of an expression need not be an expression.  In `(1+2)*3` the product begins
with its first operand, and so after the bracket: its text is `1+2)*3`
(`Program.product_excerpt_unopened`).  Nothing else is amiss.  Where each bracket of the text has
its partner in the text, it is read on its own as that expression; where one has not, no expression
is read that takes up all of it; and with the missing brackets in front and behind it is read as
that expression again (`Program.expr_excerpt`).

Brackets can be put around every text that ends with a token.  They run together with nothing, and
the tokens of the text move on by one byte for each bracket in front
(`Token.exists_scan_enclose`).
-/

namespace SimpleLang

/-- A text with `i` opening brackets in front of it and `j` closing brackets behind it. -/
def Text.enclose (i j : Nat) (cs : List Char) : List Char :=
  List.replicate i '(' ++ (cs ++ List.replicate j ')')

/-! ### Lexemes in brackets -/

namespace Lexeme

variable {cs ds : List Char} {ls ls' : List Lexeme}

/-- An opening bracket. -/
def opening : Lexeme := ⟨some .openParen, ['(']⟩

/-- A closing bracket. -/
def closing : Lexeme := ⟨some .closeParen, [')']⟩

/-- The lexemes of two texts are those of the texts one after the other, if the last lexeme of the
first may end there. -/
theorem Splits.append (h : Splits cs ls []) (h' : Splits ds ls' [])
    (hlast : ∀ l ∈ ls.getLast?, l.Precedes ds) : Splits (cs ++ ds) (ls ++ ls') [] := by
  generalize hleft : ([] : List Char) = left at h
  induction h with
  | nil => exact hleft ▸ h'
  | @cons l rest ls _ hl hrest ih =>
    subst hleft
    rw [List.append_assoc]
    cases hrest with
    | nil => exact .cons (hlast l rfl) h'
    | @cons l' rest ls _ hl' hrest =>
      obtain ⟨c, cs, htext⟩ := List.exists_cons_of_ne_nil (first?_nonempty hl'.first?)
      refine .cons (hl.of_head_eq ?_) (ih hlast rfl)
      rw [htext]
      rfl

theorem opening_precedes (rest : List Char) : opening.Precedes rest :=
  .symbol (by decide : (['('], TokenKind.openParen) ∈ TokenKind.symbols) nofun

theorem closing_precedes (rest : List Char) : closing.Precedes rest :=
  .symbol (by decide : ([')'], TokenKind.closeParen) ∈ TokenKind.symbols) nofun

/-- Copies of a mark do not run together. -/
theorem splits_replicate {l : Lexeme} {c : Char} (htext : l.text = [c])
    (hl : ∀ rest, l.Precedes rest) (n : Nat) :
    Splits (List.replicate n c) (List.replicate n l) [] := by
  induction n with
  | zero => exact .nil
  | succ n ih =>
    have hcons := Splits.cons (hl (List.replicate n c)) ih
    rwa [htext] at hcons

/-- Brackets around a text that ends with a token are lexemes of their own. -/
theorem Splits.enclose (h : Splits cs ls []) (hlast : ∃ l ∈ ls.getLast?, l.kind ≠ none)
    (i j : Nat) : Splits (Text.enclose i j cs)
      (List.replicate i opening ++ (ls ++ List.replicate j closing)) [] := by
  obtain ⟨l, hl, hkind⟩ := hlast
  have htoken : l.IsToken :=
    h.isToken l (List.mem_filter.2 ⟨List.mem_of_getLast? hl, Option.isSome_iff_ne_none.2 hkind⟩)
  have hclosed : Splits (cs ++ List.replicate j ')') (ls ++ List.replicate j closing) [] := by
    refine h.append (splits_replicate rfl closing_precedes j) fun l' hl' => ?_
    obtain rfl : l = l' := Option.some.inj (hl.symm.trans hl')
    cases j with
    | zero => exact htoken.2
    | succ j => exact htoken.precedes (by decide) (by decide) _
  refine (splits_replicate rfl opening_precedes i).append hclosed fun l' hl' => ?_
  obtain rfl := List.eq_of_mem_replicate (List.mem_of_getLast? hl')
  exact opening_precedes _

theorem byteSize_opening (i : Nat) : byteSize (List.replicate i opening) = i := by
  induction i with
  | zero => rfl
  | succ i ih =>
    rw [List.replicate_succ, byteSize_cons, ih, Nat.add_comm]
    rfl

end Lexeme

/-! ### Tokens in brackets -/

namespace Token

variable {cs : List Char} {ls : List Lexeme}

/-- Copies of one lexeme have tokens of its kind, as many as there are copies. -/
theorem placed_replicate {l : Lexeme} {kind : TokenKind} (hl : l.kind = some kind) (file : String)
    (offset n : Nat) : (∀ t ∈ placed file offset (List.replicate n l), t.kind = kind) ∧
      (placed file offset (List.replicate n l)).length = n := by
  constructor
  · intro t ht
    obtain ⟨before, l', after, hls, ht⟩ := exists_of_mem_placed ht
    have hmem : l' ∈ List.replicate n l := by simp [hls]
    rw [List.eq_of_mem_replicate hmem] at ht
    obtain ⟨kind', hkind, rfl⟩ := Option.map_eq_some_iff.1 ht
    exact Option.some.inj (hkind.symm.trans hl)
  · rw [length_placed, List.filterMap_replicate_of_some hl, List.length_replicate]

/-- The tokens of a text that ends with a token, in brackets. -/
theorem exists_scan_enclose (h : Lexeme.Splits cs ls [])
    (hlast : ∃ l ∈ ls.getLast?, l.kind ≠ none) (file : String) (i j : Nat) :
    ∃ ls' os cs', scan (.ofList (Text.enclose i j cs)) file = .ok (place file 0 ls') ∧
      Lexeme.Splits (Text.enclose i j cs) ls' [] ∧ Enclose i j os cs' ∧
      placed file 0 ls' = os ++ ((placed file 0 ls).map (relocate (.shift i)) ++ cs') := by
  have hsplits := h.enclose hlast i j
  obtain ⟨hopening, hopened⟩ := placed_replicate (l := Lexeme.opening) rfl file 0 i
  obtain ⟨hclosing, hclosed⟩ :=
    placed_replicate (l := Lexeme.closing) rfl file (i + Lexeme.byteSize ls) j
  refine ⟨_, _, _, scan_eq_ok_iff.2 ⟨_, by simpa using hsplits, rfl⟩, hsplits,
    ⟨hopening, hclosing, hopened, hclosed⟩, ?_⟩
  rw [placed_append, placed_append, Lexeme.byteSize_opening, Nat.zero_add,
    placed_eq_shift file i ls]

end Token

/-! ### Reading one expression -/

/-- The tokens are read as the expression `e`, and nothing comes after it. -/
def Expr.ReadsWhole (tokens : List Token) (file : String) (e : Expr) : Prop :=
  ∃ c, (Parser.expr .standard .default).run (Cursor.start file tokens) = .ok e c ∧
    c.current.kind = .eof

namespace Phrase

open Token (Enclose)

variable {ts us : List Token} {e e' : Expr} {i j : Nat} {ρ σ : Relocation}

/-- Some tokens are read as an expression if they spell it. -/
theorem readsWhole_iff {file : String} {t : Token} (hts : ∀ t ∈ ts, t.kind ≠ .eof)
    (ht : t.kind = .eof) : e.ReadsWhole (ts ++ [t]) file ↔ Expression 0 ts e := by
  constructor
  · rintro ⟨c, hrun, hend⟩
    have hreading := Parser.expr_reading (Cursor.start_terminated file (ts ++ [t]))
    rw [show Parser.expr .standard .default (Cursor.start file (ts ++ [t])) = .ok e c from hrun]
      at hreading
    cases hreading with
    | read hpass he => exact Program.eq_of_passes_to_end hts ht hpass hend ▸ he.1
  · intro he
    refine ⟨_, Parser.expr_accepts he (Program.start_passes file ts ht) ?_, ht⟩
    rw [ht]
    rfl

theorem readsWhole_place_iff {file : String} {cs : List Char} {ls : List Lexeme}
    (h : Lexeme.Splits cs ls []) :
    e.ReadsWhole (Token.place file 0 ls) file ↔ Expression 0 (Token.placed file 0 ls) e := by
  rw [Token.place_eq]
  exact readsWhole_iff (fun t ht => Token.kind_ne_eof_of_mem_placed h.kind_ne_eof ht) rfl

theorem Expression.unique (h : Expression 0 ts e) (h' : Expression 0 ts e') : e = e' := by
  have hpass := Program.start_passes "" ts (e := filler .eof) rfl
  have hrun := (Parser.expr_accepts h hpass rfl).symm.trans (Parser.expr_accepts h' hpass rfl)
  cases hrun
  rfl

/-- Tokens that spell an expression in any brackets do so elsewhere. -/
theorem Expression.relocate_within (hback : ∀ t : Token, (t.relocate σ).relocate ρ = t)
    (h : ∀ os cs, Enclose i j os cs → Expression 0 (os ++ (us ++ cs)) e) (os cs : List Token)
    (hos : Enclose i j os cs) :
    Expression 0 (os ++ (us.map (Token.relocate ρ) ++ cs)) (e.relocate ρ) := by
  -- the brackets are taken to where the expression stands and back
  have hthere : Enclose i j (os.map (Token.relocate σ)) (cs.map (Token.relocate σ)) :=
    ⟨by simpa using hos.opening, by simpa using hos.closing, by simpa using hos.opened,
      by simpa using hos.closed⟩
  have hid : Token.relocate ρ ∘ Token.relocate σ = id := funext hback
  have hmoved := (h _ _ hthere).relocate (ρ := ρ)
  rwa [List.map_append, List.map_append, List.map_map, List.map_map, hid, List.map_id,
    List.map_id] at hmoved

end Phrase

namespace Program

open Phrase

/-- **Spans delimit expressions but for brackets.**  In a source of fewer than 2^32 bytes, what
stands at the span of an expression has tokens.  They are read as one expression just if each
bracket among them has its partner among them, and then it is that expression, with all offsets
lowered by the offset at which the span begins.  With the missing brackets in front and behind they
are always read as one expression, and it is that one, moved on by the brackets in front. -/
theorem expr_excerpt (source file : String) (tokens : List Token) (p : Program)
    (hsize : Text.byteSize source.toList < UInt32.size)
    (hscan : Token.scan source file = .ok tokens) (hread : ofTokens tokens file = .ok p)
    (e : Expr) (he : p.Contains (.expression e)) : ∃ part tokens',
      Text.slice? e.span.start.offset.toNat e.span.stop.offset.toNat source.toList = some part ∧
      Token.scan (.ofList part) file = .ok tokens' ∧
      (∀ e' : Expr, e'.ReadsWhole tokens' file ↔
        Token.brackets tokens' = .balanced ∧ e' = e.relocate (.lower e.span.start.offset)) ∧
      ∃ restored, Token.scan (.ofList (Text.enclose (Token.brackets tokens').unopened
          (Token.brackets tokens').unclosed part)) file = .ok restored ∧
        ((e.relocate (.lower e.span.start.offset)).relocate
          (.shift (Token.brackets tokens').unopened)).ReadsWhole restored file := by
  obtain ⟨ls, hls, rfl⟩ := Token.scan_eq_ok_iff.1 hscan
  obtain ⟨items, hitems, rfl⟩ := (ofTokens_place_iff hls 0).1 hread
  obtain ⟨ts, hts, hexpr⟩ := hitems.exists_spells he
  obtain ⟨us, around, hcore⟩ := hexpr.exists_core
  obtain ⟨os, cs, rfl, -⟩ := hcore.enclosed
  have hus : us <:+: Token.placed file 0 ls := List.IsInfix.trans ⟨os, cs, by simp⟩ hts
  obtain ⟨part, ls', hslice, hls', hplaced, hlast⟩ :=
    Token.exists_stretch hls hsize hus hcore.spanned
  have hbrackets : Token.brackets (Token.place file 0 ls') = Token.brackets us := by
    rw [Token.place_eq, Token.brackets_append, hplaced, Token.brackets_relocate]
    exact Brackets.append_balanced _
  -- at the beginning of a text of their own the tokens need the same brackets
  have hlowered := Expression.relocate_within
    (fun t => by simpa using t.relocate_lower_shift e.span.start.offset.toNat) hcore.bare
  rw [← hplaced] at hlowered
  refine ⟨part, Token.place file 0 ls', hslice,
    Token.scan_eq_ok_iff.2 ⟨ls', by simpa using hls', rfl⟩, fun e' => ?_, ?_⟩
  · rw [readsWhole_place_iff hls', hbrackets]
    have hwhole : Token.brackets us = .balanced →
        Expression 0 (Token.placed file 0 ls') (e.relocate (.lower e.span.start.offset)) := by
      intro hbalanced
      rw [hbalanced] at hlowered
      simpa using hlowered [] [] .nil
    constructor
    · intro he'
      have hbalanced := he'.balanced
      rw [hplaced, Token.brackets_relocate] at hbalanced
      exact ⟨hbalanced, he'.unique (hwhole hbalanced)⟩
    · rintro ⟨hbalanced, rfl⟩
      exact hwhole hbalanced
  · rw [hbrackets]
    obtain ⟨ls'', os', cs', hscan', hsplits, hos', hplaced'⟩ :=
      Token.exists_scan_enclose hls' hlast file (Token.brackets us).unopened
        (Token.brackets us).unclosed
    refine ⟨_, hscan', (readsWhole_place_iff hsplits).2 ?_⟩
    rw [hplaced']
    exact Expression.relocate_within (Token.relocate_shift_lower _) hlowered os' cs' hos'

/-- A product whose first operand is in brackets. -/
def bracketedProduct : String := "x:=(1+2)*3;"

/-- The sum in the brackets. -/
def innerSum : Expr := .binary ⟨⟨4, "f"⟩, ⟨7, "f"⟩⟩ (.int ⟨⟨4, "f"⟩, ⟨5, "f"⟩⟩ 1) .add
  (.int ⟨⟨6, "f"⟩, ⟨7, "f"⟩⟩ 2)

/-- The product, which begins after the bracket. -/
def outerProduct : Expr := .binary ⟨⟨4, "f"⟩, ⟨10, "f"⟩⟩ innerSum .mul
  (.int ⟨⟨9, "f"⟩, ⟨10, "f"⟩⟩ 3)

/-- The program with that product. -/
def productProgram : Program := ⟨[], [], [.assign ⟨⟨0, "f"⟩, ⟨11, "f"⟩⟩ "x" outerProduct]⟩

theorem contains_outerProduct : productProgram.Contains (.expression outerProduct) :=
  ⟨_, .head _, .single (.head _)⟩

theorem scan_bracketedProduct : Token.scan bracketedProduct "f" = .ok
    [⟨.identifier, "x", ⟨⟨0, "f"⟩, ⟨1, "f"⟩⟩⟩, ⟨.assignment, ":=", ⟨⟨1, "f"⟩, ⟨3, "f"⟩⟩⟩,
      ⟨.openParen, "(", ⟨⟨3, "f"⟩, ⟨4, "f"⟩⟩⟩, ⟨.number, "1", ⟨⟨4, "f"⟩, ⟨5, "f"⟩⟩⟩,
      ⟨.plus, "+", ⟨⟨5, "f"⟩, ⟨6, "f"⟩⟩⟩, ⟨.number, "2", ⟨⟨6, "f"⟩, ⟨7, "f"⟩⟩⟩,
      ⟨.closeParen, ")", ⟨⟨7, "f"⟩, ⟨8, "f"⟩⟩⟩, ⟨.star, "*", ⟨⟨8, "f"⟩, ⟨9, "f"⟩⟩⟩,
      ⟨.number, "3", ⟨⟨9, "f"⟩, ⟨10, "f"⟩⟩⟩, ⟨.semicolon, ";", ⟨⟨10, "f"⟩, ⟨11, "f"⟩⟩⟩,
      .endOfInput ⟨11, "f"⟩] := by
  decide +kernel

theorem slice?_outerProduct : Text.slice? outerProduct.span.start.offset.toNat
    outerProduct.span.stop.offset.toNat bracketedProduct.toList = some "1+2)*3".toList := by
  decide +kernel

/-- The tokens of its text, without the end of input. -/
def unopenedTokens : List Token :=
  [⟨.number, "1", ⟨⟨0, "f"⟩, ⟨1, "f"⟩⟩⟩, ⟨.plus, "+", ⟨⟨1, "f"⟩, ⟨2, "f"⟩⟩⟩,
    ⟨.number, "2", ⟨⟨2, "f"⟩, ⟨3, "f"⟩⟩⟩, ⟨.closeParen, ")", ⟨⟨3, "f"⟩, ⟨4, "f"⟩⟩⟩,
    ⟨.star, "*", ⟨⟨4, "f"⟩, ⟨5, "f"⟩⟩⟩, ⟨.number, "3", ⟨⟨5, "f"⟩, ⟨6, "f"⟩⟩⟩]

theorem scan_unopened :
    Token.scan "1+2)*3" "f" = .ok (unopenedTokens ++ [.endOfInput ⟨6, "f"⟩]) := by
  decide +kernel

/-- What stands at the span of the product is not read as the product. -/
theorem product_excerpt_unopened : ∃ tokens,
    Text.byteSize bracketedProduct.toList < UInt32.size ∧
    Token.scan bracketedProduct "f" = .ok tokens ∧ ofTokens tokens "f" = .ok productProgram ∧
    productProgram.Contains (.expression outerProduct) ∧
    ¬ ∃ part tokens', Text.slice? outerProduct.span.start.offset.toNat
        outerProduct.span.stop.offset.toNat bracketedProduct.toList = some part ∧
      Token.scan (.ofList part) "f" = .ok tokens' ∧
      (outerProduct.relocate (.lower outerProduct.span.start.offset)).ReadsWhole tokens' "f" := by
  refine ⟨_, by decide +kernel, scan_bracketedProduct, rfl, contains_outerProduct, ?_⟩
  rintro ⟨part, tokens', hslice, hscan, hreads⟩
  obtain rfl := Option.some.inj (slice?_outerProduct.symm.trans hslice)
  rw [String.ofList_toList, scan_unopened] at hscan
  cases hscan
  have hexpr := (readsWhole_iff (by decide) rfl).1 hreads
  exact absurd hexpr.balanced (by decide)

/-- The text of the sum is read as the sum.  That of the product is read as the product with the
bracket in front that it lacks, and without it as no expression that takes up all of it. -/
theorem expr_excerpt_product :
    (∃ tokens', Token.scan "1+2" "f" = .ok tokens' ∧
      (innerSum.relocate (.lower 4)).ReadsWhole tokens' "f") ∧
    (∃ tokens', Token.scan "1+2)*3" "f" = .ok tokens' ∧
      ∀ e' : Expr, ¬ e'.ReadsWhole tokens' "f") ∧
    ∃ restored, Token.scan "(1+2)*3" "f" = .ok restored ∧
      (outerProduct.relocate (.lower 3)).ReadsWhole restored "f" := by
  have h := expr_excerpt bracketedProduct "f" _ productProgram (by decide +kernel)
    scan_bracketedProduct rfl
  have hsum : productProgram.Contains (.expression innerSum) :=
    ⟨_, .head _, .tail (.single (.head _)) (.head _)⟩
  obtain ⟨part, tokens', hslice, hscan, hreads, -⟩ := h innerSum hsum
  obtain rfl : "1+2".toList = part :=
    Option.some.inj (Eq.trans (by decide +kernel) hslice)
  obtain ⟨part, tokens'', hslice, hscan', hreads', hrestored⟩ :=
    h outerProduct contains_outerProduct
  obtain rfl := Option.some.inj (slice?_outerProduct.symm.trans hslice)
  rw [String.ofList_toList] at hscan hscan'
  rw [scan_unopened] at hscan'
  cases hscan'
  refine ⟨⟨tokens', hscan, (hreads _).2 ⟨?_, rfl⟩⟩, ⟨_, scan_unopened, fun e' he' => ?_⟩, hrestored⟩
  · have hsum : Token.scan "1+2" "f" = .ok [⟨.number, "1", ⟨⟨0, "f"⟩, ⟨1, "f"⟩⟩⟩,
        ⟨.plus, "+", ⟨⟨1, "f"⟩, ⟨2, "f"⟩⟩⟩, ⟨.number, "2", ⟨⟨2, "f"⟩, ⟨3, "f"⟩⟩⟩,
        .endOfInput ⟨3, "f"⟩] := by decide +kernel
    rw [hsum] at hscan
    cases hscan
    decide
  · exact absurd ((hreads' e').1 he').1 (by decide)

end Program

end SimpleLang
