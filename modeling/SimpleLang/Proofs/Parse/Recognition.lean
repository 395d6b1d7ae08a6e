import SimpleLang.Proofs.Parse.Complete

/-!
# The language that is read

A list of tokens is read as a program exactly if it is spelled by a sequence of items, and the
program is made of the one such sequence in which each `else` belongs to the nearest conditional
that can take it (`Program.ofTokens_recognizes`).

A list that is spelled by some items is also spelled by items of that sort: an `else` that was given
to an outer conditional can be handed to the open conditional at the end of the branch before it
(`Phrase.NearestStatement.exists_else`).
-/

namespace SimpleLang

namespace Phrase

variable {α β : Type} {P : List Token → α → Prop} {Q : List Token → β → Prop}
  {ts us : List Token} {l : Token} {s s' : Stmt}

/-! ### Handing an `else` to the nearest conditional -/

/-- A statement that ends with an open conditional takes an `else` there. -/
theorem NearestStatement.exists_else (h : NearestStatement ts s) (hopen : s.endsOpen = true)
    (hl : l.kind = .elseKw) (h' : NearestStatement us s') :
    ∃ s'', NearestStatement (ts ++ l :: us) s'' := by
  obtain ⟨h, hnear⟩ := h
  induction h using Statement.induct with
  | block => simp [Stmt.endsOpen] at hopen
  | assign => simp [Stmt.endsOpen] at hopen
  | «return» => simp [Stmt.endsOpen] at hopen
  | @ifThen k vs ws e s hk he hs ih =>
    have hnear := Stmt.nearestElse_ifThen.1 hnear
    cases hinner : s.endsOpen with
    | true =>
      obtain ⟨s'', hs''⟩ := ih hinner hnear
      exact ⟨_, by simpa using NearestStatement.ifThen hk he hs''⟩
    | false => exact ⟨_, by simpa using NearestStatement.ifElse hk he ⟨hs, hnear⟩ hinner hl h'⟩
  | ifElse hk he hs hm _ _ ih =>
    obtain ⟨hclosed, hnear, hlast⟩ := Stmt.nearestElse_ifElse.1 hnear
    obtain ⟨s'', hs''⟩ := ih hopen hlast
    exact ⟨_, by simpa using NearestStatement.ifElse hk he ⟨hs, hnear⟩ hclosed hm hs''⟩
  | «while» hk he _ ih =>
    obtain ⟨s'', hs''⟩ := ih hopen (Stmt.nearestElse_while.1 hnear)
    exact ⟨_, by simpa using NearestStatement.while hk he hs''⟩

/-- The same tokens, read one phrase after another in another way. -/
theorem Sequence.exists_of_exists {as : List α} (h : Sequence P ts as)
    (hPQ : ∀ ts a, P ts a → ∃ b, Q ts b) : ∃ bs, Sequence Q ts bs := by
  induction h with
  | nil => exact ⟨[], .nil⟩
  | cons ha _ ih =>
    obtain ⟨b, hb⟩ := hPQ _ _ ha
    obtain ⟨bs, hbs⟩ := ih
    exact ⟨b :: bs, .cons hb hbs⟩

theorem Statement.exists_nearest (h : Statement ts s) : ∃ s', NearestStatement ts s' := by
  induction h using Statement.induct with
  | block ho hds hss hc =>
    obtain ⟨ss, hss⟩ := hss.exists_of_exists fun us s ⟨_, hm⟩ => hm
    exact ⟨_, .block ho hds hss hc⟩
  | assign hx ha he hsemicolon => exact ⟨_, .assign hx ha he hsemicolon⟩
  | «return» hk he hsemicolon => exact ⟨_, .return hk he hsemicolon⟩
  | ifThen hk he _ ih =>
    obtain ⟨s, hs⟩ := ih
    exact ⟨_, .ifThen hk he hs⟩
  | «while» hk he _ ih =>
    obtain ⟨s, hs⟩ := ih
    exact ⟨_, .while hk he hs⟩
  | ifElse hk he _ hl _ ih ih' =>
    obtain ⟨s, hs⟩ := ih
    obtain ⟨s', hs'⟩ := ih'
    cases hopen : s.endsOpen with
    | true =>
      obtain ⟨s'', hs''⟩ := hs.exists_else hopen hl hs'
      exact ⟨_, .ifThen hk he hs''⟩
    | false => exact ⟨_, .ifElse hk he hs hopen hl hs'⟩

theorem TopLevel.exists_nearest {i : Item} (h : TopLevel ts i) : ∃ i', NearestTopLevel ts i' := by
  cases h with
  | function hf =>
    obtain ⟨hk, hx, ho, hds, hc, hs⟩ := hf
    obtain ⟨s, hs, hnear⟩ := hs.exists_nearest
    exact ⟨_, .function (.mk hk hx ho hds hc hs), hnear⟩
  | global hd => exact ⟨_, .global hd, trivial⟩
  | main hs =>
    obtain ⟨s, hs, hnear⟩ := hs.exists_nearest
    exact ⟨_, .main hs, hnear⟩

end Phrase

/-- A token that is one place long. -/
def Token.single (n : UInt32) (kind : TokenKind) (text : String) : Token :=
  ⟨kind, text, ⟨⟨n, ""⟩, ⟨n + 1, ""⟩⟩⟩

namespace Program

open Phrase

variable {file : String} {ts : List Token} {e : Token} {items items' : List Item} {p : Program}

/-- The end of a list of tokens is reached over all that stands before it. -/
theorem start_passes (file : String) (ts : List Token) (he : e.kind = .eof) :
    (Cursor.start file (ts ++ [e])).Passes ts ⟨ts.reverse, e, [], file⟩ where
  rest := by rw [Cursor.rest_start, Cursor.terminate_append file ts he]; rfl
  before := by simp [Cursor.start_before]
  file := (Cursor.start_file file _).symm

/-- The only end of input is where the list ends. -/
theorem eq_of_passes_to_end {c : Cursor} {us : List Token} (hts : ∀ t ∈ ts, t.kind ≠ .eof)
    (he : e.kind = .eof) (hpass : (Cursor.start file (ts ++ [e])).Passes us c)
    (hc : c.current.kind = .eof) : us = ts := by
  have hrest := hpass.rest
  rw [(start_passes file ts he).rest] at hrest
  rcases List.append_eq_append_iff.1 hrest with ⟨vs, hus, hvs⟩ | ⟨vs, hus, hvs⟩
  · cases vs with
    | nil => simpa using hus
    | cons v vs => simp [Cursor.rest] at hvs
  · cases vs with
    | nil => simpa using hus.symm
    | cons v vs =>
      obtain ⟨rfl, -⟩ : c.current = v ∧ _ := by simpa [Cursor.rest] using hvs
      exact absurd hc (hts _ (by simp [hus]))

theorem ofTokens_eq_ok_iff (hts : ∀ t ∈ ts, t.kind ≠ .eof) (he : e.kind = .eof) :
    ofTokens (ts ++ [e]) file = .ok p ↔
      ∃ items, Sequence NearestTopLevel ts items ∧ p = .ofItems items := by
  have hread : read (ts ++ [e]) file =
    Parser.program .standard (Cursor.start file (ts ++ [e])) := rfl
  constructor
  · intro h
    have hreading := Parser.program_reading (Cursor.start_terminated file (ts ++ [e]))
    unfold ofTokens at h
    rw [hread] at h
    generalize Parser.program .standard (Cursor.start file (ts ++ [e])) = r at h hreading
    cases hreading with
    | stuck => cases h
    | read hpass hitems =>
      cases h
      obtain ⟨hitems, hend⟩ := hitems
      rwa [eq_of_passes_to_end hts he hpass hend] at hitems
  · rintro ⟨items, hitems, rfl⟩
    unfold ofTokens
    rw [hread, Parser.program_accepts hitems (start_passes file ts he) he]

theorem items_unique (h : Sequence NearestTopLevel ts items)
    (h' : Sequence NearestTopLevel ts items') : items = items' := by
  have hpass := start_passes "" ts (e := filler .eof) rfl
  have hrun := Parser.items_accepts h hpass rfl
  rw [Parser.items_accepts h' hpass rfl] at hrun
  cases hrun
  rfl

/-- **The language that is read.**  A list of tokens whose only end of input is at its end is read
as a program exactly if it is spelled by a sequence of items.  The program is made of the items,
those of each sort in their order, in which each `else` belongs to the nearest conditional that can
take it, and there is only one such sequence. -/
theorem ofTokens_recognizes (file : String) (ts : List Token) (e : Token)
    (hts : ∀ t ∈ ts, t.kind ≠ .eof) (he : e.kind = .eof) :
    ((∃ p, ofTokens (ts ++ [e]) file = .ok p) ↔ ∃ items, Sequence TopLevel ts items) ∧
    (∀ p, ofTokens (ts ++ [e]) file = .ok p ↔
      ∃ items, Sequence NearestTopLevel ts items ∧
        p.functions = items.filterMap Item.function? ∧
        p.globals = items.filterMap Item.global? ∧
        p.main = items.filterMap Item.main?) ∧
    ∀ items items', Sequence NearestTopLevel ts items → Sequence NearestTopLevel ts items' →
      items = items' := by
  refine ⟨⟨?_, ?_⟩, ?_, fun _ _ => items_unique⟩
  · rintro ⟨p, hp⟩
    obtain ⟨items, hitems, -⟩ := (ofTokens_eq_ok_iff hts he).1 hp
    exact ⟨items, hitems.imp fun _ _ h => h.1⟩
  · rintro ⟨items, hitems⟩
    obtain ⟨items, hitems⟩ := hitems.exists_of_exists fun _ _ h => h.exists_nearest
    exact ⟨_, (ofTokens_eq_ok_iff hts he).2 ⟨items, hitems, rfl⟩⟩
  · intro p
    rw [ofTokens_eq_ok_iff hts he]
    refine exists_congr fun items => and_congr_right fun _ => ?_
    obtain ⟨functions, globals, main⟩ := p
    simp [ofItems]

/-- The tokens of `if a if b { } else x := (f)(1);`. -/
def nestedConditionals : List Token :=
  [.single 0 .ifKw "if", .single 1 .identifier "a", .single 2 .ifKw "if", .single 3 .identifier "b",
    .single 4 .openCurly r"{", .single 5 .closeCurly r"}", .single 6 .elseKw "else",
    .single 7 .identifier "x", .single 8 .assignment ":=", .single 9 .openParen "(",
    .single 10 .identifier "f", .single 11 .closeParen ")", .single 12 .openParen "(",
    .single 13 .number "1", .single 14 .closeParen ")", .single 15 .semicolon ";"]

theorem ofTokens_recognizes_nestedConditionals :
    (∀ t ∈ nestedConditionals, t.kind ≠ .eof) ∧
    ofTokens (nestedConditionals ++ [filler .eof]) "" = .ok ⟨[], [],
      [.ifThen ⟨⟨0, ""⟩, ⟨16, ""⟩⟩ (.name ⟨⟨1, ""⟩, ⟨2, ""⟩⟩ "a")
        (.ifElse ⟨⟨2, ""⟩, ⟨16, ""⟩⟩ (.name ⟨⟨3, ""⟩, ⟨4, ""⟩⟩ "b")
          (.block ⟨⟨4, ""⟩, ⟨6, ""⟩⟩ [] [])
          (.assign ⟨⟨7, ""⟩, ⟨16, ""⟩⟩ "x"
            (.call ⟨⟨10, ""⟩, ⟨15, ""⟩⟩ "f" [.int ⟨⟨13, ""⟩, ⟨14, ""⟩⟩ 1])))]⟩ := by
  have hts : ∀ t ∈ nestedConditionals, t.kind ≠ .eof := by decide
  have hname : ∀ n x, Expression 0 [.single n .identifier x]
      (.name ⟨⟨n, ""⟩, ⟨n + 1, ""⟩⟩ x) := fun n x => .loosen (.name rfl) (Nat.zero_le 4)
  have hone : Expression 0 [.single 13 .number "1"] (.int ⟨⟨13, ""⟩, ⟨14, ""⟩⟩ 1) :=
    .loosen (.number rfl rfl) (Nat.zero_le 4)
  have hcallee : Callee [.single 9 .openParen "(", .single 10 .identifier "f",
      .single 11 .closeParen ")"] (.single 10 .identifier "f") :=
    .group (o := .single 9 .openParen "(") (c := .single 11 .closeParen ")") rfl (.name rfl) rfl
  have hcall := Expression.call (o := .single 12 .openParen "(") (c := .single 14 .closeParen ")")
    hcallee rfl (.some hone .nil) rfl
  have hassign : Statement (nestedConditionals.drop 7) _ :=
    .assign rfl rfl (hcall.loosen (Nat.zero_le 4)) rfl
  have hblock : Statement [.single 4 .openCurly r"{", .single 5 .closeCurly r"}"] _ :=
    .block rfl .nil .nil rfl
  have hinner := Statement.ifElse (k := .single 2 .ifKw "if") (l := .single 6 .elseKw "else") rfl
    (hname 3 "b") hblock rfl hassign
  have houter : NearestTopLevel nestedConditionals (.main _) :=
    ⟨.main (.ifThen (k := .single 0 .ifKw "if") rfl (hname 1 "a") hinner), by
      simp [Item.NearestElse, Stmt.endsOpen]⟩
  exact ⟨hts, ((ofTokens_recognizes "" nestedConditionals (filler .eof) hts rfl).2.1 _).2
    ⟨[.main _], .cons houter .nil, rfl, rfl, rfl⟩⟩

end Program

end SimpleLang
