import SimpleLang.Proofs.Token.Stretch

/-!
# Statements and functions on their own

What stands at the span of a statement is that statement, and what stands at the span of a function
is that function: read on its own, either gives a program of one item, with everything as many bytes
earlier as the span begins (`Program.ofTokens_excerpt`).  This holds at any depth, so a conditional
inside another neither loses an `else` to it nor takes one from it.
-/

namespace SimpleLang

namespace Phrase

variable {ts us : List Token} {s part : Stmt} {f : FuncDef} {items : List Item}

/-- A statement takes up its span. -/
theorem Statement.spanned (h : Statement ts s) : Token.Spanned s.span ts :=
  ⟨h.exists_first, h.exists_last⟩

/-- A function definition takes up its span. -/
theorem Function.spanned (h : Function ts f) : Token.Spanned f.span ts := by
  cases h with
  | @mk k x o c ts _ _ _ _ _ _ _ _ hs =>
    obtain ⟨us, t, rfl, ht⟩ := hs.exists_last
    exact ⟨⟨k, _, rfl, rfl⟩, k :: x :: o :: (ts ++ c :: us), t, by simp, ht⟩

/-- Each statement inside a statement is spelled by a stretch of its tokens. -/
theorem Statement.exists_nested (h : Statement ts s) (hnear : s.NearestElse)
    (hpart : part ∈ s.nested) : ∃ us, us <:+: ts ∧ NearestStatement us part := by
  induction h using Statement.induct with
  | @block o c ts us ds ss ho hds hss hc =>
    rcases List.mem_cons.1 hpart with rfl | hpart
    · exact ⟨_, List.infix_rfl, .block ho hds (hss.imp fun _ _ ⟨h, _⟩ => h) hc, hnear⟩
    · obtain ⟨st, hst, hpart⟩ := Stmt.mem_nestedAll.1 hpart
      obtain ⟨vs, hvs, _, ih⟩ := hss.exists_isInfix st hst
      obtain ⟨ws, hws, hpart⟩ := ih (Stmt.nearestElse_block.1 hnear st hst) hpart
      exact ⟨ws, hws.trans (hvs.trans ⟨o :: ts, [c], by simp⟩), hpart⟩
  | assign hx ha he hsemicolon =>
    cases List.mem_singleton.1 hpart
    exact ⟨_, List.infix_rfl, .assign hx ha he hsemicolon, hnear⟩
  | @ifThen k ts us e s hk he hs ih =>
    rcases List.mem_cons.1 hpart with rfl | hpart
    · exact ⟨_, List.infix_rfl, .ifThen hk he hs, hnear⟩
    · obtain ⟨ws, hws, hpart⟩ := ih (Stmt.nearestElse_ifThen.1 hnear) hpart
      exact ⟨ws, hws.trans ⟨k :: ts, [], by simp⟩, hpart⟩
  | @ifElse k l ts us vs e s s' hk he hs hl hs' ih ih' =>
    obtain ⟨-, hthen, helse⟩ := Stmt.nearestElse_ifElse.1 hnear
    rcases List.mem_cons.1 hpart with rfl | hpart
    · exact ⟨_, List.infix_rfl, .ifElse hk he hs hl hs', hnear⟩
    · rcases List.mem_append.1 hpart with hpart | hpart
      · obtain ⟨ws, hws, hpart⟩ := ih hthen hpart
        exact ⟨ws, hws.trans ⟨k :: ts, l :: vs, by simp⟩, hpart⟩
      · obtain ⟨ws, hws, hpart⟩ := ih' helse hpart
        exact ⟨ws, hws.trans ⟨k :: (ts ++ (us ++ [l])), [], by simp⟩, hpart⟩
  | @«while» k ts us e s hk he hs ih =>
    rcases List.mem_cons.1 hpart with rfl | hpart
    · exact ⟨_, List.infix_rfl, .while hk he hs, hnear⟩
    · obtain ⟨ws, hws, hpart⟩ := ih (Stmt.nearestElse_while.1 hnear) hpart
      exact ⟨ws, hws.trans ⟨k :: ts, [], by simp⟩, hpart⟩
  | «return» hk he hsemicolon =>
    cases List.mem_singleton.1 hpart
    exact ⟨_, List.infix_rfl, .return hk he hsemicolon, hnear⟩

/-- Each function of a program is spelled by a stretch of its tokens. -/
theorem Sequence.exists_function (h : Sequence NearestTopLevel ts items)
    (hf : f ∈ (Program.ofItems items).functions) :
    ∃ us, us <:+: ts ∧ Function us f ∧ f.body.NearestElse := by
  obtain ⟨i, hi, hif⟩ := List.mem_filterMap.1 hf
  obtain ⟨us, hus, htop, hnear⟩ := h.exists_isInfix i hi
  cases htop with
  | function hfunc => cases hif; exact ⟨us, hus, hfunc, hnear⟩
  | global _ => cases hif
  | main _ => cases hif

/-- Each statement anywhere in a program is spelled by a stretch of its tokens. -/
theorem Sequence.exists_statement (h : Sequence NearestTopLevel ts items)
    (hs : s ∈ (Program.ofItems items).statements) :
    ∃ us, us <:+: ts ∧ NearestStatement us s := by
  obtain ⟨outer, houter, hs⟩ := Stmt.mem_nestedAll.1 hs
  -- the statement is inside the body of a function or inside one of the main statements
  have hstretch : ∃ us, us <:+: ts ∧ NearestStatement us outer := by
    rcases List.mem_append.1 houter with houter | houter
    · obtain ⟨f, hf, rfl⟩ := List.mem_map.1 houter
      obtain ⟨us, hus, hfunc, hnear⟩ := h.exists_function hf
      cases hfunc with
      | @mk k x o c vs ws _ _ _ _ _ _ _ hbody =>
        exact ⟨ws, List.IsInfix.trans ⟨k :: x :: o :: (vs ++ [c]), [], by simp⟩ hus, hbody, hnear⟩
    · obtain ⟨i, hi, hmain⟩ := List.mem_filterMap.1 houter
      obtain ⟨us, hus, htop, hnear⟩ := h.exists_isInfix i hi
      cases htop with
      | function _ => cases hmain
      | global _ => cases hmain
      | main hstmt => cases hmain; exact ⟨us, hus, hstmt, hnear⟩
  obtain ⟨us, hus, hstmt, hnear⟩ := hstretch
  obtain ⟨vs, hvs, hs⟩ := hstmt.exists_nested hnear hs
  exact ⟨vs, hvs.trans hus, hs⟩

end Phrase

namespace Program

open Phrase

/-- What stands at a span of a source is, read on its own, the program `p`. -/
def ReadsAt (source file : String) (span : Span) (p : Program) : Prop :=
  ∃ part tokens,
    Text.slice? span.start.offset.toNat span.stop.offset.toNat source.toList = some part ∧
      Token.scan (.ofList part) file = .ok tokens ∧ ofTokens tokens file = .ok p

/-- An item that takes up a span is what stands there. -/
theorem readsAt_of_isInfix {source file : String} {ls : List Lexeme} {us : List Token} {i : Item}
    {span : Span} (hls : Lexeme.Splits source.toList ls [])
    (hsize : Text.byteSize source.toList < UInt32.size) (hus : us <:+: Token.placed file 0 ls)
    (hi : NearestTopLevel us i) (hspan : Token.Spanned span us) :
    ReadsAt source file span (.ofItems [i.relocate (.lower span.start.offset)]) := by
  obtain ⟨part, ls', hslice, hls', hplaced, -⟩ := Token.exists_stretch hls hsize hus hspan
  have hitems : Sequence NearestTopLevel (Token.placed file 0 ls')
      [i.relocate (.lower span.start.offset)] := by
    rw [hplaced]
    exact List.append_nil (us.map _) ▸ .cons hi.relocate .nil
  exact ⟨part, _, hslice, Token.scan_eq_ok_iff.2 ⟨ls', by simpa using hls', rfl⟩,
    (ofTokens_place_iff hls' 0).2 ⟨_, hitems, rfl⟩⟩

/-- **Spans delimit statements and functions.**  In a source of fewer than 2^32 bytes, what stands
at the span of a statement, at any depth, is read on its own as a program with that statement and
nothing else, and what stands at the span of a function as a program with that function and nothing
else; all offsets are lowered by the offset at which the span begins. -/
theorem ofTokens_excerpt (source file : String) (tokens : List Token) (p : Program)
    (hsize : Text.byteSize source.toList < UInt32.size)
    (hscan : Token.scan source file = .ok tokens) (hread : ofTokens tokens file = .ok p) :
    (∀ s ∈ p.statements, ReadsAt source file s.span
      ⟨[], [], [s.relocate (.lower s.span.start.offset)]⟩) ∧
    ∀ f ∈ p.functions, ReadsAt source file f.span
      ⟨[f.relocate (.lower f.span.start.offset)], [], []⟩ := by
  obtain ⟨ls, hls, rfl⟩ := Token.scan_eq_ok_iff.1 hscan
  obtain ⟨items, hitems, rfl⟩ := (ofTokens_place_iff hls 0).1 hread
  constructor
  · intro s hs
    obtain ⟨us, hus, hstmt, hnear⟩ := hitems.exists_statement hs
    exact readsAt_of_isInfix hls hsize hus ⟨.main hstmt, hnear⟩ hstmt.spanned
  · intro f hf
    obtain ⟨us, hus, hfunc, hnear⟩ := hitems.exists_function hf
    exact readsAt_of_isInfix hls hsize hus ⟨.function hfunc, hnear⟩ hfunc.spanned

/-- A conditional with an `else` in a function after a comment. -/
def commentedFunction : String := "//é\n" ++ r"func f(){if c x:=1; else{}}"

theorem ofTokens_excerpt_conditional :
    let body : Stmt := .ifElse ⟨⟨0, "f"⟩, ⟨17, "f"⟩⟩ (.name ⟨⟨3, "f"⟩, ⟨4, "f"⟩⟩ "c")
      (.assign ⟨⟨5, "f"⟩, ⟨10, "f"⟩⟩ "x" (.int ⟨⟨8, "f"⟩, ⟨9, "f"⟩⟩ 1))
      (.block ⟨⟨15, "f"⟩, ⟨17, "f"⟩⟩ [] [])
    ReadsAt commentedFunction "f" ⟨⟨14, "f"⟩, ⟨31, "f"⟩⟩ ⟨[], [], [body]⟩ ∧
      ReadsAt commentedFunction "f" ⟨⟨5, "f"⟩, ⟨32, "f"⟩⟩
        ⟨[⟨"f", [], .block ⟨⟨8, "f"⟩, ⟨27, "f"⟩⟩ [] [body.relocate (.shift 9)],
          ⟨⟨0, "f"⟩, ⟨27, "f"⟩⟩⟩], [], []⟩ := by
  have hscan : Token.scan commentedFunction "f" = .ok
      [⟨.funcKw, "func", ⟨⟨5, "f"⟩, ⟨9, "f"⟩⟩⟩, ⟨.identifier, "f", ⟨⟨10, "f"⟩, ⟨11, "f"⟩⟩⟩,
        ⟨.openParen, "(", ⟨⟨11, "f"⟩, ⟨12, "f"⟩⟩⟩, ⟨.closeParen, ")", ⟨⟨12, "f"⟩, ⟨13, "f"⟩⟩⟩,
        ⟨.openCurly, r"{", ⟨⟨13, "f"⟩, ⟨14, "f"⟩⟩⟩, ⟨.ifKw, "if", ⟨⟨14, "f"⟩, ⟨16, "f"⟩⟩⟩,
        ⟨.identifier, "c", ⟨⟨17, "f"⟩, ⟨18, "f"⟩⟩⟩, ⟨.identifier, "x", ⟨⟨19, "f"⟩, ⟨20, "f"⟩⟩⟩,
        ⟨.assignment, ":=", ⟨⟨20, "f"⟩, ⟨22, "f"⟩⟩⟩, ⟨.number, "1", ⟨⟨22, "f"⟩, ⟨23, "f"⟩⟩⟩,
        ⟨.semicolon, ";", ⟨⟨23, "f"⟩, ⟨24, "f"⟩⟩⟩, ⟨.elseKw, "else", ⟨⟨25, "f"⟩, ⟨29, "f"⟩⟩⟩,
        ⟨.openCurly, r"{", ⟨⟨29, "f"⟩, ⟨30, "f"⟩⟩⟩, ⟨.closeCurly, r"}", ⟨⟨30, "f"⟩, ⟨31, "f"⟩⟩⟩,
        ⟨.closeCurly, r"}", ⟨⟨31, "f"⟩, ⟨32, "f"⟩⟩⟩, .endOfInput ⟨32, "f"⟩] := by decide +kernel
  have h := ofTokens_excerpt commentedFunction "f" _ _ (by decide +kernel) hscan rfl
  exact ⟨h.1 _ (.tail _ (.head _)), h.2 _ (.head _)⟩

end Program

end SimpleLang
