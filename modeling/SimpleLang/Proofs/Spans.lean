import SimpleLang.Proofs.Parse.Parts

/-!
# Spans form a tree

Each part of a program takes up some text, from the beginning of a token to the end of one; the
parts inside it lie within that text, one after another, and so do the items of the program
(`Program.spans_form_tree`).

All of it comes from the order of the tokens.  In a source of fewer than 2^32 bytes a token ends
after it begins and before the next one begins (`Token.Ordered`), and the tokens that spell the
parts of a part are in that order too.
-/

namespace SimpleLang

/-! ### Spans -/

namespace Span

/-- The span takes up some text. -/
def Nonempty (s : Span) : Prop := s.start.offset < s.stop.offset

/-- The first span ends before the second begins, or where it begins. -/
def Before (s s' : Span) : Prop := s.stop.offset ≤ s'.start.offset

/-- The first span lies in the second. -/
def Within (s outer : Span) : Prop :=
  outer.start.offset ≤ s.start.offset ∧ s.stop.offset ≤ outer.stop.offset

/-- The spans have no text in common. -/
def Apart (s s' : Span) : Prop := s.Before s' ∨ s'.Before s

end Span

/-! ### Tokens in order -/

namespace Lexeme

/-- No lexeme of a text is empty. -/
theorem Splits.text_ne_nil {cs left : List Char} {ls : List Lexeme} (h : Splits cs ls left) :
    ∀ l ∈ ls, l.text ≠ [] := by
  induction h with
  | nil => simp
  | cons hl _ ih => exact List.forall_mem_cons.2 ⟨first?_nonempty hl.first?, ih⟩

end Lexeme

namespace Token

variable {file : String} {offset : Nat} {ls : List Lexeme} {cs : List Char} {t : Token}
  {ts ts' us vs : List Token} {span span' : Span}

/-- The tokens take up text one after another. -/
structure Ordered (ts : List Token) : Prop where
  /-- Each of them takes up some. -/
  nonempty : ∀ t ∈ ts, t.span.Nonempty
  /-- Each of them ends before the next begins. -/
  pairwise : ts.Pairwise fun t t' => t.span.Before t'.span

theorem Ordered.of_isInfix (h : Ordered ts) (hus : us <:+: ts) : Ordered us :=
  ⟨fun t ht => h.nonempty t (hus.mem ht), h.pairwise.sublist hus.sublist⟩

theorem Ordered.before (h : Ordered (ts ++ us)) {t u : Token} (ht : t ∈ ts) (hu : u ∈ us) :
    t.span.Before u.span :=
  (List.pairwise_append.1 h.pairwise).2.2 t ht u hu

/-- Tokens are placed in order, as long as their offsets do not wrap around. -/
theorem placed_ordered (hls : ∀ l ∈ ls, l.text ≠ [])
    (hsize : offset + Lexeme.byteSize ls < UInt32.size) : Ordered (placed file offset ls) ∧
      ∀ t ∈ placed file offset ls, offset ≤ t.span.start.offset.toNat := by
  induction ls generalizing offset with
  | nil => exact ⟨⟨by simp [placed], .nil⟩, by simp [placed]⟩
  | cons l ls ih =>
    obtain ⟨hl, hls⟩ := List.forall_mem_cons.1 hls
    rw [Lexeme.byteSize_cons, ← Nat.add_assoc] at hsize
    obtain ⟨hordered, hafter⟩ := ih hls hsize
    have hpos : 0 < Text.byteSize l.text := by
      obtain ⟨c, cs, hcs⟩ := List.exists_cons_of_ne_nil hl
      rw [hcs, Text.byteSize_cons]
      have := Char.utf8Size_pos c
      omega
    have hstart := Position.toNat_ofNat_of_lt file (show offset < UInt32.size by omega)
    have hstop := Position.toNat_ofNat_of_lt file
      (show offset + Text.byteSize l.text < UInt32.size by omega)
    have hlater : ∀ t ∈ placed file (offset + Text.byteSize l.text) ls,
        offset ≤ t.span.start.offset.toNat := fun t ht =>
      Nat.le_trans (Nat.le_add_right _ _) (hafter t ht)
    cases hkind : l.kind with
    | none =>
      rw [placed, ofLexeme?, hkind]
      exact ⟨hordered, hlater⟩
    | some kind =>
      rw [placed, ofLexeme?, hkind]
      refine ⟨⟨List.forall_mem_cons.2 ⟨?_, hordered.nonempty⟩,
        List.pairwise_cons.2 ⟨fun t ht => ?_, hordered.pairwise⟩⟩,
        List.forall_mem_cons.2 ⟨hstart.ge, hlater⟩⟩
      · exact UInt32.lt_iff_toNat_lt.2 (by rw [hstart, hstop]; omega)
      · exact UInt32.le_iff_toNat_le.2 (hstop.trans_le (hafter t ht))

/-- The tokens of a short text are in order. -/
theorem placed_ordered_of_splits (hls : Lexeme.Splits cs ls [])
    (hsize : Text.byteSize cs < UInt32.size) : Ordered (placed file 0 ls) := by
  have hbytes : 0 + Lexeme.byteSize ls < UInt32.size := by
    rw [hls.text_eq, List.append_nil] at hsize
    rwa [Nat.zero_add, Lexeme.byteSize]
  exact (placed_ordered hls.text_ne_nil hbytes).1

/-! ### Spans of tokens in order -/

namespace Spanned

theorem exists_start (h : Spanned span us) : ∃ t ∈ us, t.span.start = span.start := by
  obtain ⟨t, us, rfl, ht⟩ := h.first
  exact ⟨t, List.mem_cons_self, ht⟩

theorem exists_stop (h : Spanned span us) : ∃ t ∈ us, t.span.stop = span.stop := by
  obtain ⟨us, t, rfl, ht⟩ := h.last
  exact ⟨t, List.mem_concat_self, ht⟩

/-- The tokens that take up a span lie in it. -/
theorem token_within (h : Spanned span us) (hordered : Ordered us) (ht : t ∈ us) :
    t.span.Within span := by
  obtain ⟨first, rest, hfirst, hstart⟩ := h.first
  obtain ⟨init, last, hlast, hstop⟩ := h.last
  constructor
  · rw [← hstart]
    rw [hfirst, ← List.singleton_append] at ht hordered
    rcases List.mem_append.1 ht with ht | ht
    · rw [List.mem_singleton.1 ht]
      exact UInt32.le_refl _
    · exact UInt32.le_trans (UInt32.le_of_lt (hordered.nonempty first List.mem_cons_self))
        (hordered.before List.mem_cons_self ht)
  · rw [← hstop]
    rw [hlast] at ht hordered
    rcases List.mem_append.1 ht with ht | ht
    · exact UInt32.le_trans (hordered.before ht List.mem_cons_self)
        (UInt32.le_of_lt (hordered.nonempty last List.mem_concat_self))
    · rw [List.mem_singleton.1 ht]
      exact UInt32.le_refl _

theorem nonempty (h : Spanned span us) (hordered : Ordered us) : span.Nonempty := by
  obtain ⟨t, ht, hstart⟩ := h.exists_start
  have hstop := (h.token_within hordered ht).2
  exact UInt32.lt_of_lt_of_le (hstart ▸ hordered.nonempty t ht) hstop

/-- A stretch of the tokens takes up a span within theirs. -/
theorem within (h : Spanned span us) (hordered : Ordered us) (hvs : vs <:+: us)
    (h' : Spanned span' vs) : span'.Within span := by
  obtain ⟨t, ht, hstart⟩ := h'.exists_start
  obtain ⟨u, hu, hstop⟩ := h'.exists_stop
  exact ⟨hstart ▸ (h.token_within hordered (hvs.mem ht)).1,
    hstop ▸ (h.token_within hordered (hvs.mem hu)).2⟩

/-- Tokens that come first take up a span that comes first. -/
theorem before (h : Spanned span us) (h' : Spanned span' vs)
    (hordered : Ordered (ts ++ ts')) (hus : us <:+: ts) (hvs : vs <:+: ts') :
    span.Before span' := by
  obtain ⟨t, ht, hstop⟩ := h.exists_stop
  obtain ⟨u, hu, hstart⟩ := h'.exists_start
  have hbefore := hordered.before (hus.mem ht) (hvs.mem hu)
  rwa [Span.Before, hstop, hstart] at hbefore

end Spanned

end Token

namespace Phrase

variable {ts us : List Token} {part : Part} {parts : List Part} {e : Expr} {n : Nat}

/-- Parts that are spelled one after another have spans one after another. -/
theorem Arranged.pairwise (h : Arranged ts parts) (hordered : Token.Ordered ts) :
    parts.Pairwise fun a b => a.span.Before b.span := by
  induction h with
  | nil => exact .nil
  | @cons gap us ts part parts hpart hparts ih =>
    have hordered := hordered.of_isInfix (List.suffix_append gap (us ++ ts)).isInfix
    refine List.pairwise_cons.2 ⟨fun later hlater => ?_,
      ih (hordered.of_isInfix (List.suffix_append us ts).isInfix)⟩
    obtain ⟨vs, hvs, hspells⟩ := hparts.exists_spells hlater
    obtain ⟨us', hus', hspan⟩ := hpart.exists_spanned
    obtain ⟨vs', hvs', hspan'⟩ := hspells.exists_spanned
    exact hspan.before hspan' hordered hus' (hvs'.trans hvs)

/-- Parts that are spelled by a stretch of the tokens at a span lie within that span. -/
theorem Arranged.within {span : Span} (h : Arranged us parts) (hspan : Token.Spanned span ts)
    (hordered : Token.Ordered ts) (hus : us <:+: ts) : ∀ c ∈ parts, c.span.Within span := by
  intro c hc
  obtain ⟨vs, hvs, hspells⟩ := h.exists_spells hc
  obtain ⟨ws, hws, hspan'⟩ := hspells.exists_spanned
  exact hspan.within hordered (hws.trans (hvs.trans hus)) hspan'

/-- The operands or arguments of an expression lie within its span, although the brackets around it
and around its first and last operand do not. -/
theorem Expression.parts_within (h : Expression n ts e) (hordered : Token.Ordered ts) :
    ∀ c ∈ e.parts, c.span.Within e.span := by
  induction h using Expression.induct with
  | tighter _ ih => exact ih hordered
  | @binary _ ts us t _ left right hop hl ht hr _ _ =>
    have hpairwise := (Expression.binary hop hl ht hr).arranged.pairwise hordered
    have hbefore : left.span.Before right.span :=
      (List.pairwise_cons.1 hpairwise).1 _ List.mem_cons_self
    obtain ⟨vs, hvs, hleft⟩ := hl.exists_spanned
    obtain ⟨ws, hws, hright⟩ := hr.exists_spanned
    have hleft := hleft.nonempty
      (hordered.of_isInfix (hvs.trans (List.prefix_append ts (t :: us)).isInfix))
    have hright := hright.nonempty (hordered.of_isInfix (hws.trans ⟨ts ++ [t], [], by simp⟩))
    refine List.forall_mem_cons.2 ⟨⟨UInt32.le_refl _, ?_⟩,
      List.forall_mem_singleton.2 ⟨?_, UInt32.le_refl _⟩⟩
    · exact UInt32.le_trans hbefore (UInt32.le_of_lt hright)
    · exact UInt32.le_trans (UInt32.le_of_lt hleft) hbefore
  | @group o c _ _ _ _ _ ih => exact ih (hordered.of_isInfix ⟨[o], [c], by simp⟩)
  | @call _ us f o c _ hf _ hes _ =>
    obtain ⟨-, before, after, -, rfl, -⟩ := hf.exists_core
    have hargs := Arranged.of_separated hes (f := .expression) fun _ _ ⟨he, _⟩ => he
    have hspan : Token.Spanned ⟨f.span.start, c.span.stop⟩ (f :: (after ++ o :: (us ++ [c]))) :=
      ⟨⟨f, _, rfl, rfl⟩, ⟨f :: (after ++ o :: us), c, by simp, rfl⟩⟩
    exact hargs.within hspan (hordered.of_isInfix ⟨before, [], by simp⟩)
      ⟨f :: (after ++ [o]), [c], by simp⟩
  | _ => simp [Expr.parts]

/-- The parts right inside a part lie within its span. -/
theorem Spells.children_within (h : Spells ts part) (hordered : Token.Ordered ts) :
    ∀ c ∈ part.children, c.span.Within part.span := by
  cases part with
  | function f =>
    exact h.arranged.within (Function.spanned h) hordered List.infix_rfl
  | declaration d => simp [Part.children]
  | statement s => exact h.arranged.within (Statement.spanned h) hordered List.infix_rfl
  | expression e => exact Expression.parts_within h hordered

end Phrase

/-- The span of a part fits the tokens and the parts right inside it. -/
structure Part.Placed (tokens : List Token) (part : Part) : Prop where
  /-- It takes up some text. -/
  nonempty : part.span.Nonempty
  /-- It begins where a token begins. -/
  start : ∃ t ∈ tokens, t.kind ≠ .eof ∧ t.span.start = part.span.start
  /-- It ends where a token ends. -/
  stop : ∃ t ∈ tokens, t.kind ≠ .eof ∧ t.span.stop = part.span.stop
  /-- The parts inside lie within it. -/
  within : ∀ c ∈ part.children, c.span.Within part.span
  /-- They lie one after another. -/
  pairwise : part.children.Pairwise fun a b => a.span.Before b.span

namespace Program

open Phrase

theorem placed_of_spells {tokens us : List Token} {part : Part} (h : Spells us part)
    (hordered : Token.Ordered us) (hus : ∀ t ∈ us, t ∈ tokens ∧ t.kind ≠ .eof) :
    part.Placed tokens := by
  obtain ⟨vs, hvs, hspan⟩ := h.exists_spanned
  obtain ⟨t, ht, hstart⟩ := hspan.exists_start
  obtain ⟨u, hu, hstop⟩ := hspan.exists_stop
  obtain ⟨htmem, htkind⟩ := hus t (hvs.mem ht)
  obtain ⟨humem, hukind⟩ := hus u (hvs.mem hu)
  exact ⟨hspan.nonempty (hordered.of_isInfix hvs), ⟨t, htmem, htkind, hstart⟩,
    ⟨u, humem, hukind, hstop⟩, h.children_within hordered, h.arranged.pairwise hordered⟩

/-- Items of one sort have spans one after another if all items have. -/
theorem pairwise_filterMap {β : Type} {items : List Item} {f : Item → Option β} {span : β → Span}
    (h : items.Pairwise fun i j => i.part.span.Before j.part.span)
    (hf : ∀ i b, f i = some b → i.part.span = span b) :
    (items.filterMap f).Pairwise fun a b => (span a).Before (span b) := by
  refine h.filterMap f fun i j hij a ha b hb => ?_
  rwa [← hf i a ha, ← hf j b hb]

/-- **Spans form a tree.**  In a source of fewer than 2^32 bytes, every part of the program takes up
some text, from the beginning of a token to the end of one, and the parts inside it lie within that
text, one after another.  Functions follow each other, and so do globals and main statements, and no
two items have text in common. -/
theorem spans_form_tree (source file : String) (tokens : List Token) (p : Program)
    (hsize : Text.byteSize source.toList < UInt32.size)
    (hscan : Token.scan source file = .ok tokens) (hread : ofTokens tokens file = .ok p) :
    (∀ part, p.Contains part → part.Placed tokens) ∧
    (p.functions.Pairwise fun f g => f.span.Before g.span) ∧
    (p.globals.Pairwise fun d d' => d.span.Before d'.span) ∧
    (p.main.Pairwise fun s s' => s.span.Before s'.span) ∧
    p.parts.Pairwise fun a b => a.span.Apart b.span := by
  obtain ⟨ls, hls, rfl⟩ := Token.scan_eq_ok_iff.1 hscan
  obtain ⟨items, hitems, rfl⟩ := (ofTokens_place_iff hls 0).1 hread
  have hordered : Token.Ordered (Token.placed file 0 ls) :=
    Token.placed_ordered_of_splits hls hsize
  have hparts := hitems.arranged.pairwise hordered
  have hpairwise := List.pairwise_map.1 hparts
  refine ⟨fun part hpart => ?_, pairwise_filterMap hpairwise ?_, pairwise_filterMap hpairwise ?_,
    pairwise_filterMap hpairwise ?_, ?_⟩
  · obtain ⟨us, hus, hspells⟩ := hitems.exists_spells hpart
    refine placed_of_spells hspells (hordered.of_isInfix hus) fun t ht => ⟨?_, ?_⟩
    · rw [Token.place_eq]
      exact List.mem_append_left _ (hus.mem ht)
    · exact Token.kind_ne_eof_of_mem_placed hls.kind_ne_eof (hus.mem ht)
  · rintro (f | d | s) _ h <;> cases h
    rfl
  · rintro (f | d | s) _ h <;> cases h
    rfl
  · rintro (f | d | s) _ h <;> cases h
    rfl
  · refine (List.Perm.pairwise_iff (fun h => h.symm) (parts_ofItems_perm items)).2 ?_
    exact hparts.imp .inl

/-- A sum with a bracketed operand, and a declaration after a comment. -/
def bracketedSum : String := "return(a)+f(1);//é\nint b;"

theorem spans_form_tree_bracketedSum :
    let sum : Expr := .binary ⟨⟨7, "f"⟩, ⟨14, "f"⟩⟩ (.name ⟨⟨7, "f"⟩, ⟨8, "f"⟩⟩ "a") .add
      (.call ⟨⟨10, "f"⟩, ⟨14, "f"⟩⟩ "f" [.int ⟨⟨12, "f"⟩, ⟨13, "f"⟩⟩ 1])
    let p : Program := ⟨[], [⟨"b", some .int, ⟨⟨20, "f"⟩, ⟨25, "f"⟩⟩⟩],
      [.return ⟨⟨0, "f"⟩, ⟨15, "f"⟩⟩ sum]⟩
    ∃ tokens, Token.scan bracketedSum "f" = .ok tokens ∧ ofTokens tokens "f" = .ok p ∧
      (Part.expression sum).Placed tokens ∧ p.parts.Pairwise fun a b => a.span.Apart b.span := by
  intro sum p
  have hscan : Token.scan bracketedSum "f" = .ok
      [⟨.returnKw, "return", ⟨⟨0, "f"⟩, ⟨6, "f"⟩⟩⟩, ⟨.openParen, "(", ⟨⟨6, "f"⟩, ⟨7, "f"⟩⟩⟩,
        ⟨.identifier, "a", ⟨⟨7, "f"⟩, ⟨8, "f"⟩⟩⟩, ⟨.closeParen, ")", ⟨⟨8, "f"⟩, ⟨9, "f"⟩⟩⟩,
        ⟨.plus, "+", ⟨⟨9, "f"⟩, ⟨10, "f"⟩⟩⟩, ⟨.identifier, "f", ⟨⟨10, "f"⟩, ⟨11, "f"⟩⟩⟩,
        ⟨.openParen, "(", ⟨⟨11, "f"⟩, ⟨12, "f"⟩⟩⟩, ⟨.number, "1", ⟨⟨12, "f"⟩, ⟨13, "f"⟩⟩⟩,
        ⟨.closeParen, ")", ⟨⟨13, "f"⟩, ⟨14, "f"⟩⟩⟩, ⟨.semicolon, ";", ⟨⟨14, "f"⟩, ⟨15, "f"⟩⟩⟩,
        ⟨.intKw, "int", ⟨⟨20, "f"⟩, ⟨23, "f"⟩⟩⟩, ⟨.identifier, "b", ⟨⟨24, "f"⟩, ⟨25, "f"⟩⟩⟩,
        ⟨.semicolon, ";", ⟨⟨25, "f"⟩, ⟨26, "f"⟩⟩⟩, .endOfInput ⟨26, "f"⟩] := by decide +kernel
  have h := spans_form_tree bracketedSum "f" _ p (by decide +kernel) hscan rfl
  have hsum : p.Contains (.expression sum) := ⟨_, .tail _ (.head _), .single (.head _)⟩
  exact ⟨_, hscan, rfl, h.1 _ hsum, h.2.2.2.2⟩

end Program

end SimpleLang
